import DSigMatcher.Cfg.Scanner

namespace DSigMatcher.Cfg
open DSigMatcher.Base DSigMatcher.Framework

variable {σ : Type*}

/-- What touches no slot and takes neither a leader nor a failure back. -/
structure CfgScanner.Aside (s t : CfgScanner σ) : Prop where
  backend : t.backend = s.backend
  slots : t.slots = s.slots
  decodedSlotCount : t.decodedSlotCount = s.decodedSlotCount
  leaders : s.leaders <+: t.leaders
  halted : s.halted = true → t.halted = true

/-- A known slot stays as it is, and neither a leader nor a failure is taken back. -/
structure CfgScanner.Later (s t : CfgScanner σ) : Prop where
  slots : ∀ offset slot, s.slots offset = some slot → t.slots offset = some slot
  leaders : s.leaders <+: t.leaders
  halted : s.halted = true → t.halted = true

/-- Every known slot is one `P` admits. -/
def CfgScanner.SlotsAre (P : Nat → CfgDecodedSlot → Prop) (s : CfgScanner σ) : Prop :=
  ∀ offset slot, s.slots offset = some slot → P offset slot

namespace CfgScanner

theorem Aside.refl (s : CfgScanner σ) : s.Aside s := ⟨rfl, rfl, rfl, List.prefix_rfl, id⟩

theorem Aside.trans {s t u : CfgScanner σ} (h : s.Aside t) (h' : t.Aside u) : s.Aside u :=
  ⟨h'.backend.trans h.backend, h'.slots.trans h.slots,
    h'.decodedSlotCount.trans h.decodedSlotCount, h.leaders.trans h'.leaders,
    fun hs => h'.halted (h.halted hs)⟩

theorem fail_halted (s : CfgScanner σ) {status : CfgStatus} (hstatus : status ≠ .ok)
    (message : String) : (s.fail status message).halted = true := by
  unfold fail ControlFlowGraph.fail halted
  split_ifs with h
  · simpa using hstatus
  · simpa using h

theorem fail_aside (s : CfgScanner σ) {status : CfgStatus} (hstatus : status ≠ .ok)
    (message : String) : s.Aside (s.fail status message) :=
  ⟨rfl, rfl, rfl, List.prefix_rfl, fun _ => s.fail_halted hstatus message⟩

/-- Work on the graph that leaves its status alone. -/
theorem out_aside (s : CfgScanner σ) (out : ControlFlowGraph) (h : out.status = s.out.status) :
    s.Aside { s with out } := by
  refine ⟨rfl, rfl, rfl, List.prefix_rfl, fun hs => ?_⟩
  rw [halted, h]
  exact hs

theorem addLeader_aside (s : CfgScanner σ) (length offset : Nat) :
    s.Aside (s.addLeader length offset) := by
  unfold addLeader
  split_ifs
  · exact .refl s
  · exact s.fail_aside (by decide) _
  · exact ⟨rfl, rfl, rfl, List.prefix_append _ _, id⟩

theorem addBranchLeader_aside (s : CfgScanner σ) (length : Nat) (slot : CfgDecodedSlot) :
    s.Aside (s.addBranchLeader length slot) := by
  unfold addBranchLeader
  split_ifs
  · exact s.addLeader_aside length _
  · exact .refl s

theorem markLeaders_aside (s : CfgScanner σ) (length : Nat) (slot : CfgDecodedSlot) (next : Nat) :
    s.Aside (s.markLeaders length slot next).1 := by
  unfold markLeaders
  cases slot.role with
  | directBranch => exact s.addBranchLeader_aside length slot
  | conditionalBranch =>
    exact (s.addBranchLeader_aside length slot).trans (addLeader_aside _ length next)
  | normal | indirectBranch | directCall | indirectCall | «return» | noReturn | invalid =>
    exact .refl s

theorem Later.refl (s : CfgScanner σ) : s.Later s := ⟨fun _ _ h => h, List.prefix_rfl, id⟩

theorem Later.trans {s t u : CfgScanner σ} (h : s.Later t) (h' : t.Later u) : s.Later u :=
  ⟨fun offset slot hslot => h'.slots offset slot (h.slots offset slot hslot),
    h.leaders.trans h'.leaders, fun hs => h'.halted (h.halted hs)⟩

theorem Aside.later {s t : CfgScanner σ} (h : s.Aside t) : s.Later t :=
  ⟨fun _ _ hslot => h.slots ▸ hslot, h.leaders, h.halted⟩

@[simp] theorem remember_slots_self (s : CfgScanner σ) (offset : Nat) (slot : CfgDecodedSlot) :
    (s.remember offset slot).slots offset = some slot := Function.update_self ..

theorem remember_slots_ne (s : CfgScanner σ) {offset o : Nat} (h : o ≠ offset)
    (slot : CfgDecodedSlot) : (s.remember offset slot).slots o = s.slots o :=
  Function.update_of_ne h ..

theorem remember_later {s : CfgScanner σ} {offset : Nat} (h : s.slots offset = none)
    (slot : CfgDecodedSlot) : s.Later (s.remember offset slot) := by
  refine ⟨fun o known hknown => ?_, List.prefix_rfl, id⟩
  have hne : o ≠ offset := by
    rintro rfl
    rw [h] at hknown
    cases hknown
  exact (remember_slots_ne s hne slot).trans hknown

theorem remember_slotsAre {P : Nat → CfgDecodedSlot → Prop} {s : CfgScanner σ} {offset : Nat}
    {slot : CfgDecodedSlot} (hs : s.SlotsAre P) (h : P offset slot) :
    (s.remember offset slot).SlotsAre P := by
  intro o known hknown
  rcases eq_or_ne o offset with rfl | hne
  · rw [remember_slots_self] at hknown
    obtain rfl := Option.some.inj hknown
    exact h
  · exact hs o known ((remember_slots_ne s hne slot).symm.trans hknown)

end CfgScanner

namespace CfgRange
variable (r : CfgRange σ)

theorem isSome_eq_none {α : Type*} {o : Option α} (h : ¬ o.isSome = true) : o = none := by
  rwa [Option.not_isSome_iff_eq_none] at h

theorem decodeSlots_later (offset : Nat) (infos : List InstructionInfo) (s : CfgScanner σ) :
    s.Later (r.decodeSlots offset infos s) := by
  induction infos generalizing s with
  | nil => exact .refl s
  | cons info infos ih =>
    simp only [decodeSlots]
    split_ifs with hend hknown hlimit
    · exact .refl s
    · exact ih s
    · exact (s.fail_aside (by decide) _).later
    · rw [not_or] at hknown
      exact (CfgScanner.remember_later (isSome_eq_none hknown.2) _).trans (ih _)

theorem decodeSlots_slotsAre {P : Nat → CfgDecodedSlot → Prop} (offset : Nat)
    (infos : List InstructionInfo) (s : CfgScanner σ) (hs : s.SlotsAre P)
    (hinfos : ∀ info ∈ infos, (offset+info.offset)%2^32 < r.length → info.length ≠ 0 →
      P ((offset+info.offset)%2^32)
        (makeSlot (r.backend.mnemonicName s.backend info.mnemonic) info
          ((offset+info.offset)%2^32))) :
    (r.decodeSlots offset infos s).SlotsAre P := by
  induction infos generalizing s with
  | nil => exact hs
  | cons info infos ih =>
    rw [List.forall_mem_cons] at hinfos
    simp only [decodeSlots]
    split_ifs with hend hknown hlimit
    · exact hs
    · exact ih s hs hinfos.2
    · exact hs
    · rw [not_or] at hknown
      exact ih _ (CfgScanner.remember_slotsAre hs (hinfos.1 (Nat.lt_of_not_le hend) hknown.1))
        hinfos.2

@[simp] theorem decodeSlots_leaders (offset : Nat) (infos : List InstructionInfo)
    (s : CfgScanner σ) : (r.decodeSlots offset infos s).leaders = s.leaders := by
  induction infos generalizing s with
  | nil => rfl
  | cons info infos ih =>
    simp only [decodeSlots]
    split_ifs
    · rfl
    · exact ih s
    · rfl
    · exact ih _

@[simp] theorem decodeWindowAt_leaders (offset : Nat) (s : CfgScanner σ) :
    (r.decodeWindowAt offset s).leaders = s.leaders := by
  unfold decodeWindowAt
  split_ifs
  · rfl
  · exact r.decodeSlots_leaders offset _ _
  · exact r.decodeSlots_leaders offset _ _
  · exact r.decodeSlots_leaders offset _ _

theorem readWindow_later (offset : Nat) (s : CfgScanner σ) : s.Later (r.readWindow offset s) := by
  have h := r.decodeSlots_later offset (r.decodeRange offset s.backend).2.2
    { s with backend := (r.decodeRange offset s.backend).1 }
  exact ⟨h.slots, h.leaders, h.halted⟩

theorem decodeWindowAt_later (offset : Nat) (s : CfgScanner σ) :
    s.Later (r.decodeWindowAt offset s) := by
  unfold decodeWindowAt
  split_ifs with hknown hread hlimit
  · exact .refl s
  · exact r.readWindow_later offset s
  · exact (r.readWindow_later offset s).trans (CfgScanner.fail_aside _ (by decide) _).later
  · rw [not_or] at hread
    exact (r.readWindow_later offset s).trans
      (CfgScanner.remember_later (isSome_eq_none hread.2) _)

/-- A request that does not fail makes its slot known. -/
theorem decodeWindowAt_known {offset : Nat} (hoffset : offset < r.length) (s : CfgScanner σ)
    (h : ¬ (r.decodeWindowAt offset s).halted = true) :
    ∃ slot, (r.decodeWindowAt offset s).slots offset = some slot := by
  rw [← Option.isSome_iff_exists]
  unfold decodeWindowAt at h ⊢
  split_ifs at h ⊢ with hknown hread hlimit
  · exact hknown.resolve_left (Nat.not_le.mpr hoffset)
  · exact hread.resolve_left h
  · exact absurd (CfgScanner.fail_halted _ (by decide) _) h
  · rw [CfgScanner.remember_slots_self]
    rfl

theorem decodeWindowAt_slotsAre {P : Nat → CfgDecodedSlot → Prop} (offset : Nat)
    (s : CfgScanner σ) (hs : s.SlotsAre P)
    (hinfos : offset < r.length → ∀ info ∈ (r.decodeRange offset s.backend).2.2,
      (offset+info.offset)%2^32 < r.length → info.length ≠ 0 →
      P ((offset+info.offset)%2^32)
        (makeSlot (r.backend.mnemonicName (r.decodeRange offset s.backend).1 info.mnemonic) info
          ((offset+info.offset)%2^32)))
    (hinvalid : offset < r.length → (r.readWindow offset s).halted = false →
      (r.readWindow offset s).slots offset = none → P offset makeInvalidSlot) :
    (r.decodeWindowAt offset s).SlotsAre P := by
  unfold decodeWindowAt
  split_ifs with hknown hread hlimit
  · exact hs
  all_goals
    rw [not_or, Nat.not_le] at hknown
    have hwindow : (r.readWindow offset s).SlotsAre P :=
      r.decodeSlots_slotsAre offset _ _ hs (hinfos hknown.1)
  · exact hwindow
  · exact hwindow
  · rw [not_or, Bool.not_eq_true] at hread
    exact CfgScanner.remember_slotsAre hwindow
      (hinvalid hknown.1 hread.1 (isSome_eq_none hread.2))

end CfgRange

end DSigMatcher.Cfg
