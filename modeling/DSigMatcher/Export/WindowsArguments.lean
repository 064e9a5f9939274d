import DSigMatcher.Base.Text
import Mathlib

namespace DSigMatcher.Export
open DSigMatcher.Base

/-- The loop of `QuoteWindowsArgument`, with the backslashes counted so far. -/
def quoteLoop : Nat → Text → Text
  | backslashes, [] => List.replicate (backslashes*2) 92 ++ [34]
  | backslashes, c::t =>
    if c = 92 then quoteLoop (backslashes+1) t
    else if c = 34 then List.replicate (backslashes*2+1) 92 ++ 34::quoteLoop 0 t
    else List.replicate backslashes 92 ++ c::quoteLoop 0 t

/-- One of the characters for which an argument is quoted. -/
def needsQuotes (c : UInt8) : Bool := c = 32 || c = 9 || c = 10 || c = 11 || c = 34

def quoteWindowsArgument (argument : Text) : Text :=
  if !argument.isEmpty && !argument.any needsQuotes then argument
  else 34::quoteLoop 0 argument

def buildWindowsCommandLine : List Text → Text
  | [] => []
  | [argument] => quoteWindowsArgument argument
  | argument::arguments =>
    quoteWindowsArgument argument ++ 32::buildWindowsCommandLine arguments

/-- A character that separates arguments. -/
def isBlank (c : UInt8) : Bool := c = 32 || c = 9

/-- The runtime's reading of one argument, with the backslashes counted so far: what it says, and
what follows it. -/
def readArgument : Bool → Nat → Text → Text × Text
  | _, backslashes, [] => (List.replicate backslashes 92,[])
  | quoted, backslashes, c::t =>
    if c = 92 then readArgument quoted (backslashes+1) t
    else if c = 34 then
      if backslashes%2 = 0 then
        let rest := readArgument (!quoted) 0 t
        (List.replicate (backslashes/2) 92 ++ rest.1,rest.2)
      else
        let rest := readArgument quoted 0 t
        (List.replicate (backslashes/2) 92 ++ 34::rest.1,rest.2)
    else if !quoted && isBlank c then (List.replicate backslashes 92,c::t)
    else
      let rest := readArgument quoted 0 t
      (List.replicate backslashes 92 ++ c::rest.1,rest.2)

/-- The arguments behind the program name; each takes at least one character. -/
def readArguments : Nat → Text → List Text
  | 0, _ => []
  | fuel+1, t =>
    let t := t.dropWhile isBlank
    if t.isEmpty then []
    else
      let rest := readArgument false 0 t
      rest.1::readArguments fuel rest.2

/-- The program name ends at its closing quote, or at a blank. -/
def readProgram : Text → Text × Text
  | 34::t => (t.takeWhile (· ≠ 34),(t.dropWhile (· ≠ 34)).tail)
  | t => (t.takeWhile fun c => !isBlank c,t.dropWhile fun c => !isBlank c)

/-- How the C runtime splits a command line, which ends at its first zero. -/
def splitCommandLine (line : Text) : List Text :=
  let line := line.takeWhile (· ≠ 0)
  let program := readProgram line
  program.1::readArguments line.length program.2

example : splitCommandLine (text "a.exe \"b \\\\\" \\\"c\\\\\"d e\"") =
    [text "a.exe", text "b \\", text "\"c\\d e"] := by decide

/-- What may follow an argument: nothing, or a blank. -/
def EndsArgument (rest : Text) : Prop := ∀ c ∈ rest.head?, isBlank c = true

theorem blank_apart {c : UInt8} (hc : isBlank c = true) : c ≠ 92 ∧ c ≠ 34 := by
  constructor <;> rintro rfl <;> cases hc

theorem readArgument_backslashes (quoted : Bool) (k n : Nat) (t : Text) :
    readArgument quoted k (List.replicate n 92 ++ t) = readArgument quoted (k+n) t := by
  induction n generalizing k with
  | zero => rfl
  | succ n ih =>
    rw [List.replicate_succ, List.cons_append, readArgument, if_pos rfl, ih]
    congr 1
    omega

/-- An argument has been read where it ends. -/
theorem readArgument_end (k : Nat) {rest : Text} (hrest : EndsArgument rest) :
    readArgument false k rest = (List.replicate k 92,rest) := by
  cases rest with
  | nil => rfl
  | cons c t =>
    have hc : isBlank c = true := hrest c rfl
    obtain ⟨hbackslash, hquote⟩ := blank_apart hc
    rw [readArgument, if_neg hbackslash, if_neg hquote, Bool.not_false, Bool.true_and, if_pos hc]

/-- What is kept without quotes is read as it stands. -/
theorem readArgument_plain {a rest : Text} (ha : a.any needsQuotes = false)
    (hrest : EndsArgument rest) (k : Nat) :
    readArgument false k (a ++ rest) = (List.replicate k 92 ++ a,rest) := by
  induction a generalizing k with
  | nil => rw [List.nil_append, readArgument_end k hrest, List.append_nil]
  | cons c a ih =>
    rw [List.any_cons, Bool.or_eq_false_iff] at ha
    obtain ⟨hc, ha⟩ := ha
    simp only [needsQuotes, Bool.or_eq_false_iff, decide_eq_false_iff_not] at hc
    have hblank : isBlank c = false := by simp [isBlank, hc]
    rw [List.cons_append, readArgument]
    by_cases hbackslash : c = 92
    · rw [if_pos hbackslash, ih ha, List.replicate_succ', List.append_assoc, hbackslash]
      rfl
    · rw [if_neg hbackslash, if_neg hc.2, hblank, Bool.and_false, if_neg Bool.false_ne_true, ih ha]
      rfl

/-- Behind its opening quote an argument is read back, with the backslashes before it. -/
theorem readArgument_quoteLoop {rest : Text} (hrest : EndsArgument rest) (a : Text) (k : Nat) :
    readArgument true 0 (quoteLoop k a ++ rest) = (List.replicate k 92 ++ a,rest) := by
  induction a generalizing k with
  | nil =>
    -- the doubled backslashes stand before the closing quote
    rw [quoteLoop, List.append_assoc, readArgument_backslashes, List.cons_append, readArgument]
    have heven : (0+k*2)%2 = 0 := by omega
    have hhalf : (0+k*2)/2 = k := by omega
    rw [if_neg (by decide), if_pos rfl, if_pos heven, hhalf]
    simp only [Bool.not_true, List.nil_append]
    rw [readArgument_end 0 hrest]
    rfl
  | cons c a ih =>
    rw [quoteLoop]
    split_ifs with hbackslash hquote
    · rw [ih, List.replicate_succ', List.append_assoc, hbackslash]
      rfl
    · have hodd : ¬ (0+(k*2+1))%2 = 0 := by omega
      have hhalf : (0+(k*2+1))/2 = k := by omega
      rw [List.append_assoc, readArgument_backslashes, List.cons_append, readArgument,
        if_neg (by decide), if_pos rfl, if_neg hodd, hhalf, ih, hquote]
      rfl
    · rw [List.append_assoc, readArgument_backslashes, List.cons_append, readArgument,
        if_neg hbackslash, if_neg hquote, Nat.zero_add, ih]
      rfl

theorem readArgument_quoted (a : Text) {rest : Text} (hrest : EndsArgument rest) :
    readArgument false 0 (quoteWindowsArgument a ++ rest) = (a,rest) := by
  rw [quoteWindowsArgument]
  split_ifs with hplain
  · rw [Bool.and_eq_true, Bool.not_eq_true', Bool.not_eq_true'] at hplain
    exact readArgument_plain hplain.2 hrest 0
  · rw [List.cons_append, readArgument, if_neg (by decide), if_pos rfl, if_pos rfl]
    simp only [Bool.not_false]
    rw [readArgument_quoteLoop hrest]
    rfl

/-- A quoted argument starts with no blank. -/
theorem quoteWindowsArgument_head (a : Text) :
    ∃ c t, quoteWindowsArgument a = c::t ∧ isBlank c = false := by
  rw [quoteWindowsArgument]
  split_ifs with hplain
  · rw [Bool.and_eq_true, Bool.not_eq_true', Bool.not_eq_true'] at hplain
    cases a with
    | nil => cases hplain.1
    | cons c a =>
      refine ⟨c, a, rfl, ?_⟩
      have hc := hplain.2
      rw [List.any_cons, Bool.or_eq_false_iff] at hc
      simp only [needsQuotes, Bool.or_eq_false_iff, decide_eq_false_iff_not] at hc
      simp [isBlank, hc]
  · exact ⟨34, quoteLoop 0 a, rfl, rfl⟩

/-- The arguments behind the program, each behind a blank. -/
def argumentsTail (arguments : List Text) : Text :=
  arguments.flatMap fun a => 32::quoteWindowsArgument a

theorem buildWindowsCommandLine_cons (program : Text) (arguments : List Text) :
    buildWindowsCommandLine (program::arguments) =
      quoteWindowsArgument program ++ argumentsTail arguments := by
  induction arguments generalizing program with
  | nil => exact (List.append_nil _).symm
  | cons a arguments ih =>
    rw [buildWindowsCommandLine, ih]
    · rfl
    · intro h
      cases h

theorem argumentsTail_ends (arguments : List Text) : EndsArgument (argumentsTail arguments) := by
  cases arguments with
  | nil =>
    intro c hc
    cases hc
  | cons a arguments =>
    intro c hc
    cases hc
    rfl

theorem readArguments_tail (arguments : List Text) (fuel : Nat) (hfuel : arguments.length ≤ fuel) :
    readArguments fuel (argumentsTail arguments) = arguments := by
  induction arguments generalizing fuel with
  | nil => cases fuel <;> rfl
  | cons a arguments ih =>
    obtain ⟨fuel, rfl⟩ : ∃ n, fuel = n+1 := ⟨fuel-1, by rw [List.length_cons] at hfuel; omega⟩
    rw [List.length_cons, Nat.add_le_add_iff_right] at hfuel
    have hsplit : (argumentsTail (a::arguments)).dropWhile isBlank =
        quoteWindowsArgument a ++ argumentsTail arguments := by
      obtain ⟨c, t, hquoted, hc⟩ := quoteWindowsArgument_head a
      rw [argumentsTail, List.flatMap_cons, ← argumentsTail, hquoted, List.cons_append,
        List.dropWhile_cons_of_pos rfl, List.cons_append, List.dropWhile_cons_of_neg]
      rw [hc]
      exact Bool.false_ne_true
    have hne : (quoteWindowsArgument a ++ argumentsTail arguments).isEmpty = false := by
      obtain ⟨c, t, hquoted, -⟩ := quoteWindowsArgument_head a
      rw [hquoted]
      rfl
    rw [readArguments]
    dsimp only
    rw [hsplit, hne, if_neg Bool.false_ne_true, readArgument_quoted a (argumentsTail_ends arguments),
      ih fuel hfuel]

theorem quoteLoop_plain {a : Text} (hquote : 34 ∉ a) (k : Nat)
    (hend : (List.replicate k 92 ++ a).getLast? ≠ some 92) :
    quoteLoop k a = List.replicate k 92 ++ a ++ [34] := by
  induction a generalizing k with
  | nil =>
    cases k with
    | zero => rfl
    | succ k =>
      rw [List.append_nil, List.replicate_succ', List.getLast?_concat] at hend
      exact absurd rfl hend
  | cons c a ih =>
    rw [List.mem_cons, not_or] at hquote
    rw [quoteLoop]
    by_cases hbackslash : c = 92
    · have hshift : List.replicate (k+1) 92 ++ a = List.replicate k 92 ++ c::a := by
        rw [List.replicate_succ', List.append_assoc, hbackslash]
        rfl
      rw [if_pos hbackslash, ih hquote.2 (k+1) (hshift ▸ hend), hshift]
    · have hlast : (List.replicate 0 92 ++ a).getLast? ≠ some 92 := by
        intro h
        apply hend
        rw [List.replicate_zero, List.nil_append] at h
        rw [List.getLast?_append, List.getLast?_cons, h]
        rfl
      rw [if_neg hbackslash, if_neg (Ne.symm hquote.1), ih hquote.2 0 hlast]
      simp

/-- The program is read back, quoted or not. -/
theorem readProgram_quoted {program rest : Text} (hquote : 34 ∉ program)
    (hend : program.getLast? ≠ some 92) (hrest : EndsArgument rest) :
    readProgram (quoteWindowsArgument program ++ rest) = (program,rest) := by
  have hsplit {p : UInt8 → Bool} {b t : Text} (hb : ∀ c ∈ b, p c = true)
      (ht : ∀ c ∈ t.head?, p c = false) :
      (b ++ t).takeWhile p = b ∧ (b ++ t).dropWhile p = t := by
    rw [List.takeWhile_append_of_pos hb, List.dropWhile_append_of_pos hb]
    cases t with
    | nil => exact ⟨List.append_nil b, rfl⟩
    | cons c t =>
      have hc : ¬ p c = true := by
        rw [ht c rfl]
        exact Bool.false_ne_true
      rw [List.takeWhile_cons_of_neg hc, List.dropWhile_cons_of_neg hc]
      exact ⟨List.append_nil b, rfl⟩
  rw [quoteWindowsArgument]
  split_ifs with hplain
  · rw [Bool.and_eq_true, Bool.not_eq_true', Bool.not_eq_true', List.any_eq_false] at hplain
    have hblank : ∀ c ∈ program, (!isBlank c) = true := by
      intro c hc
      have hneeds := hplain.2 c hc
      simp only [needsQuotes, Bool.or_eq_true, decide_eq_true_eq, not_or] at hneeds
      simp [isBlank, hneeds]
    obtain ⟨htake, hdrop⟩ := hsplit (p := fun c => !isBlank c) hblank
      (t := rest) fun c hc => by rw [hrest c hc]; rfl
    rw [readProgram, htake, hdrop]
    -- an unquoted program starts with no quote
    rintro t ht
    cases program with
    | nil => cases hplain.1
    | cons c program =>
      rw [List.cons_append, List.cons.injEq] at ht
      exact hquote (ht.1 ▸ List.mem_cons_self)
  · have hloop := quoteLoop_plain hquote 0 hend
    rw [List.replicate_zero, List.nil_append] at hloop
    obtain ⟨htake, hdrop⟩ := hsplit (p := fun c => decide (c ≠ 34)) (b := program) (t := 34::rest)
      (fun c hc => decide_eq_true fun h => hquote (h ▸ hc)) fun c hc => by
        rw [← Option.some.inj hc]
        rfl
    rw [hloop, List.cons_append, List.append_assoc, readProgram, List.singleton_append, htake, hdrop]
    rfl

theorem argumentsTail_length (arguments : List Text) :
    arguments.length ≤ (argumentsTail arguments).length := by
  induction arguments with
  | nil => exact Nat.le_refl 0
  | cons a arguments ih =>
    rw [argumentsTail, List.flatMap_cons, ← argumentsTail, List.length_append, List.length_cons,
      List.length_cons]
    omega

theorem quoteLoop_zero {a : Text} (ha : 0 ∉ a) (k : Nat) : 0 ∉ quoteLoop k a := by
  have hreplicate (n : Nat) : (0 : UInt8) ∉ List.replicate n 92 := by
    intro h
    exact absurd (List.eq_of_mem_replicate h) (by decide)
  induction a generalizing k with
  | nil => simp [quoteLoop, hreplicate]
  | cons c a ih =>
    rw [List.mem_cons, not_or] at ha
    rw [quoteLoop]
    split_ifs
    · exact ih ha.2 _
    · simp [hreplicate, ih ha.2]
    · simp [hreplicate, ih ha.2, ha.1]

theorem quoteWindowsArgument_zero {a : Text} (ha : 0 ∉ a) : 0 ∉ quoteWindowsArgument a := by
  rw [quoteWindowsArgument]
  split_ifs
  · exact ha
  · rw [List.mem_cons, not_or]
    exact ⟨by decide, quoteLoop_zero ha 0⟩

/-- What the runtime reads from a command line is what it was built from. -/
theorem splitCommandLine_build (program : Text) (arguments : List Text)
    (hnul : ∀ a ∈ program::arguments, 0 ∉ a) (hquote : 34 ∉ program)
    (hend : program.getLast? ≠ some 92) :
    splitCommandLine (buildWindowsCommandLine (program::arguments)) = program::arguments := by
  have hline := buildWindowsCommandLine_cons program arguments
  have hzero : ∀ c ∈ buildWindowsCommandLine (program::arguments), decide (c ≠ 0) = true := by
    intro c hc
    apply decide_eq_true
    rintro rfl
    rw [hline, List.mem_append, argumentsTail, List.mem_flatMap] at hc
    rcases hc with hc | ⟨a, ha, hc⟩
    · exact quoteWindowsArgument_zero (hnul program List.mem_cons_self) hc
    · rcases List.mem_cons.mp hc with hc | hc
      · cases hc
      · exact quoteWindowsArgument_zero (hnul a (List.mem_cons_of_mem _ ha)) hc
  have hlength : arguments.length ≤ (buildWindowsCommandLine (program::arguments)).length := by
    have hle := argumentsTail_length arguments
    rw [hline, List.length_append]
    omega
  rw [splitCommandLine, List.takeWhile_eq_self_iff.mpr hzero, hline, readProgram_quoted hquote hend (argumentsTail_ends arguments),
    ← hline, readArguments_tail arguments _ hlength]

theorem splitCommandLine_build_tool :
    splitCommandLine (buildWindowsCommandLine [text "C:\\Program Files\\tool.exe", [],
      text "a \"b\\\" c\\\\", text "d\\"]) =
    [text "C:\\Program Files\\tool.exe", [], text "a \"b\\\" c\\\\", text "d\\"] :=
  splitCommandLine_build _ _ (by decide) (by decide) (by decide)

end DSigMatcher.Export
