import DSigMatcher.Framework.Disk

namespace DSigMatcher.Framework

/-- How a program part that works on files ends: normally, with a failure it reports, or because
the process dies in it. -/
inductive Outcome (σ : Type*)
  | done (s : σ)
  | failed (s : σ)
  | killed (s : σ)

namespace Outcome
variable {σ : Type*}

/-- Go on after a normal end. -/
def andThen (o : Outcome σ) (next : σ → Outcome σ) : Outcome σ :=
  match o with
  | done s => next s
  | failed s => failed s
  | killed s => killed s

/-- Clean up after a failure, and report it all the same. -/
def onFailure (o : Outcome σ) (cleanUp : σ → Outcome σ) : Outcome σ :=
  match o with
  | done s => done s
  | failed s =>
    match cleanUp s with
    | done t => failed t
    | failed t => failed t
    | killed t => killed t
  | killed s => killed s

/-- One condition for each way to end. -/
def Meets (o : Outcome σ) (onDone onFailed onKilled : σ → Prop) : Prop :=
  match o with
  | done s => onDone s
  | failed s => onFailed s
  | killed s => onKilled s

section
variable {P P' Q Q' K K' : σ → Prop}

theorem Meets.imp {o : Outcome σ} (h : o.Meets P Q K) (hd : ∀ s, P s → P' s)
    (hf : ∀ s, Q s → Q' s) (hk : ∀ s, K s → K' s) : o.Meets P' Q' K' := by
  cases o with
  | done s => exact hd s h
  | failed s => exact hf s h
  | killed s => exact hk s h

theorem Meets.andThen {o : Outcome σ} {next : σ → Outcome σ} (h : o.Meets P Q K)
    (hnext : ∀ s, P s → (next s).Meets P' Q K) : (o.andThen next).Meets P' Q K := by
  cases o with
  | done s => exact hnext s h
  | failed s => exact h
  | killed s => exact h

theorem Meets.onFailure {o : Outcome σ} {cleanUp : σ → Outcome σ} (h : o.Meets P Q K)
    (hclean : ∀ s, Q s → (cleanUp s).Meets Q' Q' K) : (o.onFailure cleanUp).Meets P Q' K := by
  cases o with
  | done s => exact h
  | killed s => exact h
  | failed s =>
    have hs := hclean s h
    unfold Outcome.onFailure
    cases hc : cleanUp s with
    | _ t => simpa [hc, Meets] using hs

end

end Outcome

/-- One atomic call: whether it takes effect, and whether the process dies in it. -/
structure Call where
  happens : Bool
  killed : Bool

/-- A write is not atomic: one that does not complete may leave anything, or nothing new. -/
inductive WriteCall (κ : Type*)
  | complete
  | failed (left : Option κ)
  | killed (left : Option κ)

namespace Disk
variable {π κ : Type*} [DecidableEq π]

def leave (d : Disk π κ) (p : π) : Option κ → Disk π κ
  | some content => d.write p content
  | none => d

def writeCall (call : WriteCall κ) (p : π) (content : κ) (d : Disk π κ) : Outcome (Disk π κ) :=
  match call with
  | .complete => .done (d.write p content)
  | .failed left => .failed (d.leave p left)
  | .killed left => .killed (d.leave p left)

def renameCall (call : Call) (source destination : π) (d : Disk π κ) : Outcome (Disk π κ) :=
  let renamed := d.rename (!call.happens) source destination
  if call.killed then .killed renamed.1
  else if renamed.2 then .done renamed.1
  else .failed renamed.1

/-- A deletion whose failure is ignored. -/
def removeCall (call : Call) (p : π) (d : Disk π κ) : Outcome (Disk π κ) :=
  let removed := d.remove (!call.happens) p
  if call.killed then .killed removed else .done removed

def removeCalls (calls : π → Call) : List π → Disk π κ → Outcome (Disk π κ)
  | [], d => .done d
  | p::ps, d => (d.removeCall (calls p) p).andThen (removeCalls calls ps)

/-- Files outside `S` are as they were. -/
def SameOutside (S : List π) (d d' : Disk π κ) : Prop := ∀ q, q ∉ S → d'.files q = d.files q

omit [DecidableEq π] in
theorem SameOutside.trans {S : List π} {d e f : Disk π κ} (hde : SameOutside S d e)
    (hef : SameOutside S e f) : SameOutside S d f :=
  fun q hq => (hef q hq).trans (hde q hq)

omit [DecidableEq π] in
theorem SameOutside.weaken {S T : List π} {d e : Disk π κ} (h : SameOutside S d e)
    (hST : S ⊆ T) : SameOutside T d e :=
  fun q hq => h q fun hS => hq (hST hS)

theorem write_files (d : Disk π κ) (p : π) (content : κ) :
    (d.write p content).files p = some content :=
  Function.update_self p _ _

theorem write_same (d : Disk π κ) (p : π) (content : κ) :
    SameOutside [p] d (d.write p content) :=
  fun q hq => Function.update_of_ne (by simpa using hq) _ _

theorem leave_same (d : Disk π κ) (p : π) (left : Option κ) : SameOutside [p] d (d.leave p left) := by
  cases left with
  | none => exact fun q _ => rfl
  | some content => exact write_same d p content

theorem removeCall_meets (call : Call) (p : π) (d : Disk π κ) :
    (d.removeCall call p).Meets (SameOutside [p] d) (fun _ => False) (SameOutside [p] d) := by
  have hsame : SameOutside [p] d (d.remove (!call.happens) p) :=
    fun q hq => remove_frame _ d p q (by simpa using hq)
  unfold removeCall
  split_ifs
  · exact hsame
  · exact hsame

theorem removeCalls_meets (calls : π → Call) (ps : List π) (d : Disk π κ) :
    (removeCalls calls ps d).Meets (SameOutside ps d) (SameOutside ps d) (SameOutside ps d) := by
  induction ps generalizing d with
  | nil => exact fun q _ => rfl
  | cons p ps ih =>
    have hweak (e : Disk π κ) (he : SameOutside [p] d e) : SameOutside (p::ps) d e :=
      he.weaken (by simp)
    refine ((removeCall_meets (calls p) p d).imp hweak (fun _ h => h.elim) hweak).andThen
      fun e he => ?_
    have hstep {f : Disk π κ} (h : SameOutside ps e f) : SameOutside (p::ps) d f :=
      he.trans (h.weaken (List.subset_cons_self _ _))
    exact (ih e).imp (fun _ => hstep) (fun _ => hstep) fun _ => hstep

/-- Write a temporary file and rename it over: `p` holds the old content or all of the new one. -/
def replaceCall (write : WriteCall κ) (rename drop : Call) (temporary p : π) (content : κ)
    (d : Disk π κ) : Outcome (Disk π κ) :=
  ((d.writeCall write temporary content).andThen (renameCall rename temporary p)).onFailure
    (removeCall drop temporary)

theorem replaceCall_meets (write : WriteCall κ) (rename drop : Call) (temporary p : π)
    (content : κ) (d : Disk π κ) (hp : p ≠ temporary) :
    (replaceCall write rename drop temporary p content d).Meets
      (fun e => SameOutside [temporary, p] d e ∧ e.files p = some content)
      (fun e => SameOutside [temporary] d e)
      (fun e => SameOutside [temporary, p] d e ∧
        (e.files p = d.files p ∨ e.files p = some content)) := by
  have hwrite : (d.writeCall write temporary content).Meets
      (fun e => SameOutside [temporary] d e ∧ e.files temporary = some content)
      (fun e => SameOutside [temporary] d e)
      (fun e => SameOutside [temporary, p] d e ∧
        (e.files p = d.files p ∨ e.files p = some content)) := by
    cases write with
    | complete => exact ⟨write_same d temporary content, write_files d temporary content⟩
    | failed left => exact leave_same d temporary left
    | killed left =>
      have hsame := leave_same d temporary left
      exact ⟨hsame.weaken (by simp), Or.inl (hsame p (by simpa using hp))⟩
  refine (hwrite.andThen fun e he => ?_).onFailure fun e he => ?_
  · obtain ⟨hsame, hcontent⟩ := he
    have hpe : e.files p = d.files p := hsame p (by simpa using hp)
    unfold renameCall
    cases hr : (e.rename (!rename.happens) temporary p).2 with
    | false =>
      have heq := rename_failed _ e temporary p hr
      simp only [hr, heq, Bool.false_eq_true, if_false]
      split_ifs
      · exact ⟨hsame.weaken (by simp), Or.inl hpe⟩
      · exact hsame
    | true =>
      have hfiles := rename_files _ e temporary p hr
      have hnew : (e.rename (!rename.happens) temporary p).1.files p = some content := by
        rw [hfiles, Function.update_self, hcontent]
      have hframe : SameOutside [temporary, p] d (e.rename (!rename.happens) temporary p).1 := by
        intro q hq
        simp only [List.mem_cons, List.not_mem_nil, or_false, not_or] at hq
        rw [rename_frame _ e temporary p q hq.1 hq.2, hsame q (by simpa using hq.1)]
      simp only [hr, if_true]
      split_ifs
      · exact ⟨hframe, Or.inr hnew⟩
      · exact ⟨hframe, hnew⟩
  · refine (removeCall_meets drop temporary e).imp (fun f hf => he.trans hf) (fun _ h => h.elim)
      fun f hf => ?_
    have hsame := he.trans hf
    exact ⟨hsame.weaken (by simp), Or.inl (hsame p (by simpa using hp))⟩

end Disk

end DSigMatcher.Framework
