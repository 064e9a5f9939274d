import DSigMatcher.Cfg.PartitionSound

namespace DSigMatcher.Cfg
open DSigMatcher.Base DSigMatcher.Framework

inductive ZyanStatus
  | noMoreData
  | decodingError
  | instructionTooLong
  | badRegister
  | other

/-- `ZydisDecodedOperand`, with what is read of its immediate: 64 bits, whether they are taken as
signed or not. -/
structure ZydisOperand where
  kind : OperandKind
  value : BitVec 64
  isRelative : Bool

/-- `operands` are the visible ones. -/
structure ZydisInstruction where
  length : Nat
  mnemonic : Nat
  operands : List ZydisOperand

/-- `ZydisDecoderDecodeFull`, from the first of the bytes. -/
abbrev DecodeFull := Text → Except ZyanStatus ZydisInstruction

def maxVisibleOperands : Nat := 5

def mapStatus : ZyanStatus → DecodeStatus
  | .noMoreData => .noMoreData
  | .decodingError => .decodingError
  | .instructionTooLong => .instructionTooLong
  | .badRegister => .badRegister
  | .other => .otherError

def mapOperand (operand : ZydisOperand) : OperandInfo :=
  match operand.kind with
  | .immediate => ⟨.immediate,operand.value.toInt,operand.isRelative⟩
  | kind => ⟨kind,0,false⟩

def instructionInfo (offset : Nat) (instruction : ZydisInstruction) : InstructionInfo where
  offset := offset
  length := instruction.length
  mnemonic := instruction.mnemonic
  operands := (instruction.operands.take maxVisibleOperands).map mapOperand

/-- The loop of `DecodeRange`, a linear sweep that stops at the first failure. -/
def sweep (decodeFull : DecodeFull) (code : Text) :
    Nat → Nat → DecodeStatus × List InstructionInfo
  | 0, _ => (.success,[])
  | n+1, offset =>
    if offset < code.length then
      match decodeFull (code.drop offset) with
      | .error status => (mapStatus status,[])
      | .ok instruction =>
        if instruction.length = 0 then (.otherError,[])
        else
          let rest := sweep decodeFull code n (offset+instruction.length)
          (rest.1,instructionInfo offset instruction::rest.2)
    else (.success,[])

/-- `ZydisBackend`. -/
def zydisBackend (decodeFull : DecodeFull) (names : Nat → Text) : DisassemblerBackend Unit where
  decodeRange _ code _ := ((),sweep decodeFull code code.length 0)
  mnemonicName _ := names

def zydisRange (decodeFull : DecodeFull) (names : Nat → Text) (code : Text) (runtimeAddress : Nat) :
    CfgRange Unit := ⟨zydisBackend decodeFull names,code,runtimeAddress⟩

/-- Decoding reads 15 bytes at most, and with fewer bytes it gives the same instruction or fails. -/
structure DecodesLocally (decodeFull : DecodeFull) : Prop where
  near : ∀ t i, decodeFull t = .ok i ↔ decodeFull (t.take 15) = .ok i
  fewer : ∀ t n i, decodeFull (t.take n) = .ok i → decodeFull t = .ok i

/-- What decoding at an offset alone remembers. -/
def decodedAlone (decodeFull : DecodeFull) (names : Nat → Text) (code : Text) (offset : Nat) :
    CfgDecodedSlot :=
  match decodeFull (code.drop offset) with
  | .error _ => makeInvalidSlot
  | .ok instruction =>
    if instruction.length = 0 then makeInvalidSlot
    else makeSlot (names instruction.mnemonic) (instructionInfo 0 instruction) offset

theorem decodedAlone_ok {decodeFull : DecodeFull} {names : Nat → Text} {code : Text} {offset : Nat}
    {instruction : ZydisInstruction} (h : decodeFull (code.drop offset) = .ok instruction)
    (hlength : instruction.length ≠ 0) (place : Nat) :
    decodedAlone decodeFull names code offset =
      makeSlot (names instruction.mnemonic) (instructionInfo place instruction) offset := by
  rw [decodedAlone, h]
  exact if_neg hlength

/-- What a sweep finds is decoded at its offset. -/
theorem mem_sweep {decodeFull : DecodeFull} {code : Text} {n offset : Nat} {info : InstructionInfo}
    (h : info ∈ (sweep decodeFull code n offset).2) :
    ∃ place instruction, place < code.length ∧ decodeFull (code.drop place) = .ok instruction ∧
      instruction.length ≠ 0 ∧ info = instructionInfo place instruction := by
  induction n generalizing offset with
  | zero => cases h
  | succ n ih =>
    rw [sweep] at h
    split_ifs at h with hinside
    · cases hdecode : decodeFull (code.drop offset) with
      | error status =>
        rw [hdecode] at h
        cases h
      | ok instruction =>
        rw [hdecode] at h
        simp only at h
        split_ifs at h with hlength
        · cases h
        · rcases List.mem_cons.mp h with rfl | hrest
          · exact ⟨offset, instruction, hinside, hdecode, hlength, rfl⟩
          · exact ih hrest
    · cases h

/-- The first instruction of the bytes is the first of a sweep. -/
theorem sweep_head {decodeFull : DecodeFull} {code : Text} {instruction : ZydisInstruction}
    (h : decodeFull code = .ok instruction) (hlength : instruction.length ≠ 0) (hcode : code ≠ []) :
    ∃ infos, (sweep decodeFull code code.length 0).2 = instructionInfo 0 instruction::infos := by
  have hpos := List.length_pos_iff_ne_nil.mpr hcode
  obtain ⟨n, hn⟩ : ∃ n, code.length = n+1 := ⟨code.length-1, by omega⟩
  rw [hn, sweep, if_pos hpos, List.drop_zero, h]
  simp only
  rw [if_neg hlength]
  exact ⟨_, rfl⟩

namespace CfgRange
variable {decodeFull : DecodeFull} {names : Nat → Text} {code : Text} {runtimeAddress : Nat}

/-- A request remembers what decoding at an offset alone gives, whatever window it decodes. -/
theorem decodeWindowAt_alone (h : DecodesLocally decodeFull) (hlength : code.length ≤ cfgMaxRangeBytes)
    (offset : Nat) (s : CfgScanner Unit)
    (hs : s.SlotsAre fun o slot => slot = decodedAlone decodeFull names code o) :
    ((zydisRange decodeFull names code runtimeAddress).decodeWindowAt offset s).SlotsAre fun o slot => slot = decodedAlone decodeFull names code o := by
  generalize hr : zydisRange decodeFull names code runtimeAddress = r
  have hcode : r.code = code := hr ▸ rfl
  have hbackend : r.backend = zydisBackend decodeFull names := hr ▸ rfl
  have hsweep : (r.decodeRange offset s.backend).2.2 =
      (sweep decodeFull (r.window offset) (r.window offset).length 0).2 := by
    rw [decodeRange, hbackend]
    rfl
  have hwindow : r.window offset = (code.drop offset).take cfgDecodeWindowBytes := by
    rw [window, hcode]
  refine r.decodeWindowAt_slotsAre offset s hs ?_ ?_
  · intro hoffset info hinfo _ _
    rw [hsweep] at hinfo
    obtain ⟨place, instruction, hplace, hdecode, hpos, rfl⟩ := mem_sweep hinfo
    have hinside : offset+place < code.length := by
      rw [hwindow, List.length_take, List.length_drop] at hplace
      omega
    have hsmall : (offset+place)%2^32 = offset+place := by
      unfold cfgMaxRangeBytes at hlength
      omega
    rw [hwindow, List.drop_take, List.drop_drop] at hdecode
    rw [instructionInfo, hsmall, hbackend,
      decodedAlone_ok (h.fewer _ _ _ hdecode) hpos place]
    rfl
  · intro hoffset hread hunknown
    cases hdecode : decodeFull (code.drop offset) with
    | error status => rw [decodedAlone, hdecode]
    | ok instruction =>
      by_contra hother
      have hpos : instruction.length ≠ 0 := by
        intro hzero
        rw [decodedAlone, hdecode] at hother
        exact hother (if_pos hzero).symm
      have hfirst : decodeFull (r.window offset) = .ok instruction := by
        rw [h.near, hwindow, List.take_take, Nat.min_eq_left (by decide), ← h.near]
        exact hdecode
      have hne : r.window offset ≠ [] := by
        rw [← List.length_pos_iff_ne_nil, hwindow, List.length_take, List.length_drop, ← hcode]
        exact Nat.lt_min.mpr ⟨by decide, Nat.sub_pos_of_lt hoffset⟩
      obtain ⟨infos, hinfos⟩ := sweep_head hfirst hpos hne
      have hhere : (offset+(instructionInfo 0 instruction).offset)%2^32 = offset := by
        rw [CfgRange.length, hcode] at hoffset
        unfold cfgMaxRangeBytes at hlength
        simp only [instructionInfo]
        omega
      rw [readWindow, hsweep, hinfos, decodeSlots] at hread hunknown
      simp only [hhere] at hread hunknown
      split_ifs at hread hunknown with hend hknown hlimit
      · exact Nat.not_le.mpr hoffset hend
      · rcases hknown with hzero | hsome
        · exact hpos hzero
        · obtain ⟨slot, hslot⟩ := Option.isSome_iff_exists.mp hsome
          rw [(r.decodeSlots_later offset infos _).slots offset slot hslot] at hunknown
          cases hunknown
      · rw [CfgScanner.fail_halted _ (by decide)] at hread
        cases hread
      · rw [(r.decodeSlots_later offset infos _).slots offset _
          (CfgScanner.remember_slots_self _ offset _)] at hunknown
        cases hunknown

/-- Whatever offsets are requested, in whatever order, a slot is what decoding at its offset alone
gives. -/
theorem runs_decodedAlone (decodeFull : DecodeFull) (names : Nat → Text) (code : Text)
    (runtimeAddress : Nat) (h : DecodesLocally decodeFull) (hlength : code.length ≤ cfgMaxRangeBytes) :
    let r := zydisRange decodeFull names code runtimeAddress
    (∀ s, r.Runs (r.start ()) s → ∀ offset slot, s.slots offset = some slot →
      slot = decodedAlone decodeFull names code offset) ∧
    ∀ s, r.run () = some s → ∀ offset slot, s.slots offset = some slot →
      slot = decodedAlone decodeFull names code offset := by
  intro r
  have hruns (s : CfgScanner Unit) (hs : r.Runs (r.start ()) s) :
      s.SlotsAre fun o slot => slot = decodedAlone decodeFull names code o :=
    hs.slotsAre nofun fun offset u hu => decodeWindowAt_alone h hlength offset u hu
  exact ⟨hruns, fun s hs => hruns s (run_runs hs)⟩

/-- A decoder of `nop`, `jmp` and `jz` with a relative byte. -/
def shortJumps : DecodeFull := fun code =>
  match code.head?, code[1]? with
  | some 0x90, _ => .ok ⟨1,0,[]⟩
  | some 0xEB, some d => .ok ⟨2,1,[⟨.immediate,d.toBitVec.signExtend 64,true⟩]⟩
  | some 0x74, some d => .ok ⟨2,2,[⟨.immediate,d.toBitVec.signExtend 64,true⟩]⟩
  | _, _ => .error .noMoreData

def shortJumpNames (mnemonic : Nat) : Text :=
  match mnemonic with
  | 1 => text "jmp"
  | 2 => text "jz"
  | _ => text "nop"

theorem shortJumps_local : DecodesLocally shortJumps := by
  have hsame (t : Text) (n : Nat) : shortJumps (t.take (n+2)) = shortJumps t := by
    rw [shortJumps, shortJumps, List.head?_take, List.getElem?_take, if_neg (by omega),
      if_pos (by omega)]
  refine ⟨fun t i => by rw [hsame t 13], fun t n i h => ?_⟩
  match n with
  | 0 => cases h
  | 1 =>
    rw [shortJumps, List.head?_take, if_neg Nat.one_ne_zero, List.getElem?_take,
      if_neg (Nat.lt_irrefl 1)] at h
    rw [shortJumps]
    split at h
    · rename_i hhead
      rw [hhead]
      exact h
    · rename_i hnext
      cases hnext
    · rename_i hnext
      cases hnext
    · cases h
  | n+2 => rwa [hsame] at h

theorem runs_decodedAlone_jump :
    ∃ s, (zydisRange shortJumps shortJumpNames [0x74, 0x01, 0xEB, 0x90, 0x90] 0).run () = some s ∧
      s.slots 3 = some (decodedAlone shortJumps shortJumpNames [0x74, 0x01, 0xEB, 0x90, 0x90] 3) := by
  have hknown : ((zydisRange shortJumps shortJumpNames [0x74, 0x01, 0xEB, 0x90, 0x90] 0).run ()).any
      (fun s => (s.slots 3).isSome) := rfl
  obtain ⟨s, hs, hsome⟩ := (Option.any_eq_true _ _).mp hknown
  obtain ⟨slot, hslot⟩ := Option.isSome_iff_exists.mp hsome
  have halone := (runs_decodedAlone shortJumps shortJumpNames [0x74, 0x01, 0xEB, 0x90, 0x90] 0
    shortJumps_local (by decide)).2 s hs 3 slot hslot
  exact ⟨s, hs, halone ▸ hslot⟩

end CfgRange

end DSigMatcher.Cfg
