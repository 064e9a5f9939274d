import Mathlib

namespace DSigMatcher.Framework

/-- Regular expressions of a backtracking matcher; repetitions are greedy. -/
inductive Regex (α : Type*)
  | set (p : α → Bool)
  | seq (r q : Regex α)
  | opt (r : Regex α)
  | star (r : Regex α)

namespace Regex
variable {α : Type*}

/-- Rounds of a repetition: one more round is tried before none, and a round that consumes nothing
is no round. -/
def repeatEnds (f : List α → List (List α)) : Nat → List α → List (List α)
  | 0, s => [s]
  | n+1, s => ((f s).filter (·.length < s.length)).flatMap (repeatEnds f n) ++ [s]

/-- The rests a match at the front of a text can leave, in the order backtracking tries them. -/
def ends : Regex α → List α → List (List α)
  | .set _, [] => []
  | .set p, a::s => if p a then [s] else []
  | .seq r q, s => (ends r s).flatMap (ends q)
  | .opt r, s => ends r s ++ [s]
  | .star r, s => repeatEnds (ends r) s.length s

/-- The rest the match at the front of a text leaves. -/
def first (r : Regex α) (s : List α) : Option (List α) := (r.ends s).head?

/-- The leftmost matches that do not overlap, in order; a match that consumes nothing is none. -/
def findAll (r : Regex α) : List α → List (List α)
  | [] => []
  | a::s =>
    match r.first (a::s) with
    | none => findAll r s
    | some t =>
      if _h : t.length < (a::s).length then (a::s).take ((a::s).length-t.length)::findAll r t
      else findAll r s
termination_by s => s.length
decreasing_by
  · exact Nat.lt_succ_self _
  · exact _h
  · exact Nat.lt_succ_self _

/-- `r` repeated at least `n` times. -/
def atLeast (r : Regex α) : Nat → Regex α
  | 0 => .star r
  | n+1 => .seq r (r.atLeast n)

/-- A match consumes something. -/
def Consumes (r : Regex α) : Prop := ∀ s, ∀ t ∈ r.ends s, t.length < s.length

/-- There is always a match. -/
def Total (r : Regex α) : Prop := ∀ s, r.ends s ≠ []

section
variable (f : List α → List (List α)) (n : Nat) (p : α → Bool) (r q : Regex α) (a : α) (s : List α)

theorem repeatEnds_zero : repeatEnds f 0 s = [s] := rfl

theorem repeatEnds_succ : repeatEnds f (n+1) s =
    ((f s).filter (·.length < s.length)).flatMap (repeatEnds f n) ++ [s] := rfl

theorem ends_set_cons : (set p).ends (a::s) = if p a then [s] else [] := rfl

theorem ends_seq : (r.seq q).ends s = (r.ends s).flatMap q.ends := rfl

theorem ends_opt : r.opt.ends s = r.ends s ++ [s] := rfl

theorem ends_star : r.star.ends s = repeatEnds r.ends s.length s := rfl

theorem first_eq_head? : r.first s = (r.ends s).head? := rfl

end

theorem repeatEnds_suffix {f : List α → List (List α)} (hf : ∀ s, ∀ t ∈ f s, t <:+ s) (n : Nat) :
    ∀ s, ∀ t ∈ repeatEnds f n s, t <:+ s := by
  induction n with
  | zero =>
    intro s t ht
    rw [List.mem_singleton.mp ht]
  | succ n ih =>
    intro s t ht
    rcases List.mem_append.mp ht with hround | hstop
    · obtain ⟨u, hu, ht⟩ := List.mem_flatMap.mp hround
      exact (ih u t ht).trans (hf s u (List.mem_filter.mp hu).1)
    · rw [List.mem_singleton.mp hstop]

theorem ends_suffix (r : Regex α) : ∀ s, ∀ t ∈ r.ends s, t <:+ s := by
  induction r with
  | set p =>
    intro s t ht
    cases s with
    | nil => cases ht
    | cons a s =>
      rw [ends_set_cons] at ht
      split_ifs at ht with hp
      · rw [List.mem_singleton.mp ht]
        exact List.suffix_cons a s
      · cases ht
  | seq r q hr hq =>
    intro s t ht
    obtain ⟨u, hu, ht⟩ := List.mem_flatMap.mp ht
    exact (hq u t ht).trans (hr s u hu)
  | opt r hr =>
    intro s t ht
    rcases List.mem_append.mp ht with hsome | hnone
    · exact hr s t hsome
    · rw [List.mem_singleton.mp hnone]
  | star r hr => exact fun s => repeatEnds_suffix hr s.length s

theorem first_suffix {r : Regex α} {s t : List α} (h : r.first s = some t) : t <:+ s :=
  r.ends_suffix s t (List.mem_of_head? h)

theorem Consumes.first {r : Regex α} (hr : r.Consumes) {s t : List α} (h : r.first s = some t) :
    t.length < s.length := hr s t (List.mem_of_head? h)

theorem set_consumes (p : α → Bool) : (set p).Consumes := by
  intro s t ht
  cases s with
  | nil => cases ht
  | cons a s =>
    rw [ends_set_cons] at ht
    split_ifs at ht with hp
    · rw [List.mem_singleton.mp ht]
      exact Nat.lt_succ_self _
    · cases ht

theorem Consumes.seq_left {r : Regex α} (hr : r.Consumes) (q : Regex α) : (r.seq q).Consumes := by
  intro s t ht
  obtain ⟨u, hu, ht⟩ := List.mem_flatMap.mp ht
  exact Nat.lt_of_le_of_lt (q.ends_suffix u t ht).length_le (hr s u hu)

theorem Consumes.seq_right {q : Regex α} (hq : q.Consumes) (r : Regex α) : (r.seq q).Consumes := by
  intro s t ht
  obtain ⟨u, hu, ht⟩ := List.mem_flatMap.mp ht
  exact Nat.lt_of_lt_of_le (hq u t ht) (r.ends_suffix s u hu).length_le

theorem star_total (r : Regex α) : r.star.Total := by
  intro s
  rw [ends_star]
  cases s.length with
  | zero => simp [repeatEnds_zero]
  | succ n => simp [repeatEnds_succ]

/-- A round that consumes something each time needs no more rounds than the text is long. -/
theorem repeatEnds_fuel {f : List α → List (List α)} {n m : Nat} {s : List α}
    (hn : s.length ≤ n) (hm : s.length ≤ m) : repeatEnds f n s = repeatEnds f m s := by
  have hnone (k : Nat) : repeatEnds f k [] = [[]] := by
    cases k with
    | zero => rfl
    | succ k => simp [repeatEnds_succ]
  induction n generalizing m s with
  | zero =>
    rw [List.length_eq_zero_iff.mp (Nat.le_zero.mp hn), hnone, hnone]
  | succ n ih =>
    cases m with
    | zero => rw [List.length_eq_zero_iff.mp (Nat.le_zero.mp hm), hnone, hnone]
    | succ m =>
      rw [repeatEnds_succ, repeatEnds_succ]
      refine congrArg (· ++ [s]) (List.flatMap_congr fun t ht => ?_)
      have hless : t.length < s.length := of_decide_eq_true (List.mem_filter.mp ht).2
      exact ih (by omega) (by omega)

theorem Consumes.ends_star {r : Regex α} (hr : r.Consumes) (s : List α) :
    r.star.ends s = (r.ends s).flatMap r.star.ends ++ [s] := by
  have hall : (r.ends s).filter (·.length < s.length) = r.ends s :=
    List.filter_eq_self.mpr fun t ht => decide_eq_true (hr s t ht)
  rw [Regex.ends_star, repeatEnds_fuel (Nat.le_refl _) (Nat.le_succ _), repeatEnds_succ, hall]
  refine congrArg (· ++ [s]) (List.flatMap_congr fun t ht => ?_)
  exact repeatEnds_fuel (Nat.le_of_lt (hr s t ht)) (Nat.le_refl _)

theorem head?_flatMap {β : Type*} {f : α → List β} (hf : ∀ a, f a ≠ []) (l : List α) :
    (l.flatMap f).head? = l.head?.bind fun a => (f a).head? := by
  cases l with
  | nil => rfl
  | cons a l => rw [List.flatMap_cons, List.head?_append_of_ne_nil _ (hf a)]; rfl

@[simp] theorem first_set_nil (p : α → Bool) : (set p).first [] = none := rfl

@[simp] theorem first_set_cons (p : α → Bool) (a : α) (s : List α) :
    (set p).first (a::s) = if p a then some s else none := by
  rw [first_eq_head?, ends_set_cons]
  split_ifs <;> rfl

@[simp] theorem first_seq_set_nil (p : α → Bool) (q : Regex α) : ((set p).seq q).first [] = none := rfl

@[simp] theorem first_seq_set_cons (p : α → Bool) (q : Regex α) (a : α) (s : List α) :
    ((set p).seq q).first (a::s) = if p a then q.first s else none := by
  rw [first_eq_head?, ends_seq, ends_set_cons]
  split_ifs
  · rw [List.flatMap_singleton]
    rfl
  · rfl

theorem first_seq_assoc (r q p : Regex α) (s : List α) :
    ((r.seq q).seq p).first s = (r.seq (q.seq p)).first s := by
  rw [first_eq_head?, first_eq_head?, ends_seq, ends_seq, List.flatMap_assoc]
  rfl

theorem first_seq_opt (r q : Regex α) (s : List α) :
    (r.opt.seq q).first s = ((r.seq q).first s).or (q.first s) := by
  rw [first_eq_head?, ends_seq, ends_opt, List.flatMap_append, List.flatMap_singleton, List.head?_append]
  rfl

/-- What is always matched does not make the part before it backtrack. -/
theorem Total.first_seq {q : Regex α} (hq : q.Total) (r : Regex α) (s : List α) :
    (r.seq q).first s = (r.first s).bind q.first := head?_flatMap hq (r.ends s)

theorem Consumes.first_star {r : Regex α} (hr : r.Consumes) (s : List α) :
    r.star.first s = ((r.first s).bind r.star.first).or (some s) := by
  rw [first_eq_head?, hr.ends_star, List.head?_append, head?_flatMap r.star_total]
  rfl

theorem first_star_set (p : α → Bool) (s : List α) : (set p).star.first s = some (s.dropWhile p) := by
  induction s with
  | nil => rfl
  | cons a s ih =>
    rw [(set_consumes p).first_star, first_set_cons, List.dropWhile_cons]
    split_ifs with hp
    · rw [Option.bind_some, ih]
      rfl
    · rfl

/-- A repetition of one character takes as many as there are. -/
theorem first_atLeast_set (p : α → Bool) (n : Nat) (s : List α) :
    ((set p).atLeast n).first s =
      if n ≤ (s.takeWhile p).length then some (s.dropWhile p) else none := by
  induction n generalizing s with
  | zero => rw [if_pos (Nat.zero_le _)]; exact first_star_set p s
  | succ n ih =>
    cases s with
    | nil => rfl
    | cons a s =>
      rw [atLeast, first_seq_set_cons, ih, List.takeWhile_cons, List.dropWhile_cons]
      cases p a with
      | true => simp
      | false => simp

theorem findAll_none {r : Regex α} {a : α} {s : List α} (h : r.first (a::s) = none) :
    r.findAll (a::s) = r.findAll s := by
  rw [findAll]
  simp only [h]

theorem Consumes.findAll_some {r : Regex α} (hr : r.Consumes) {a : α} {s t : List α}
    (h : r.first (a::s) = some t) :
    r.findAll (a::s) = (a::s).take ((a::s).length-t.length)::r.findAll t := by
  rw [findAll]
  simp only [h]
  rw [dif_pos (hr.first h)]

end Regex

end DSigMatcher.Framework
