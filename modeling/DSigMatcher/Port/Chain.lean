import DSigMatcher.Port.Database
import Mathlib.Algebra.BigOperators.Group.List.Basic
import Mathlib.Data.List.TakeWhile

namespace DSigMatcher.Port
open DSigMatcher.Base DSigMatcher.Framework

section
variable {ρ : Type} {reference target : LabelTable}

theorem mem_writeOrigins (es : List (PlanEntry ρ reference target)) (o : NameOrigin ρ)
    (h : o ∈ writeOrigins es) : ∃ e ∈ appliedEntries es, o = e.originRow := by
  have hfold (rows : List (NameOrigin ρ)) (l : List (PlanEntry ρ reference target))
      (hl : ∀ e ∈ l, e ∈ appliedEntries es)
      (hrows : ∀ r ∈ rows, ∃ e ∈ appliedEntries es, r = e.originRow) :
      ∀ r ∈ l.foldl (fun rows e => insertOrigin rows e.originRow) rows,
        ∃ e ∈ appliedEntries es, r = e.originRow := by
    induction l generalizing rows with
    | nil => exact hrows
    | cons e l ih =>
      refine ih _ (fun x hx => hl x (List.mem_cons_of_mem e hx)) fun r hr => ?_
      rcases List.mem_append.mp hr with hr | hr
      · exact hrows r (List.mem_of_mem_filter hr)
      · obtain rfl := List.mem_singleton.mp hr
        exact ⟨e, hl e List.mem_cons_self, rfl⟩
  exact hfold [] _ (fun e he => he) (by simp) o h

theorem cString_eq_self (t : Text) (h : (0 : UInt8) ∉ t) : cString t = t := by
  refine List.takeWhile_eq_self_iff.mpr fun c hc => ?_
  rw [bne_iff_ne]
  rintro rfl
  exact h hc

theorem cString_terminated (t : Text) : (0 : UInt8) ∉ cString t := by
  intro h
  have := List.mem_takeWhile_imp h
  simp at this

@[simp] theorem bindHop_bindHop (r : HopRecord ρ) : bindHop (bindHop r) = bindHop r := by
  simp [bindHop, cString_eq_self _ (cString_terminated _)]

theorem insertHop_last (record : HopRecord ρ) (rows : List (HopRecord ρ))
    (h : ∀ r ∈ rows, r.hop < record.hop) : insertHop record rows = rows ++ [record] := by
  induction rows with
  | nil => rfl
  | cons r rs ih =>
    obtain ⟨hr, hrs⟩ := List.forall_mem_cons.mp h
    have hlt : ¬ record.hop < r.hop := by omega
    have hne : ¬ record.hop = r.hop := by omega
    rw [insertHop, if_neg hlt, if_neg hne, ih hrs, List.cons_append]

theorem le_highestParentHop (parents : List (HopRecord ρ)) :
    ∀ r ∈ parents, r.hop ≤ highestParentHop parents := by
  have hfold (rows : List (HopRecord ρ)) (highest : Int) :
      highest ≤ rows.foldl (fun highest r => max highest r.hop) highest ∧
      ∀ r ∈ rows, r.hop ≤ rows.foldl (fun highest r => max highest r.hop) highest := by
    induction rows generalizing highest with
    | nil => simp
    | cons r rs ih =>
      obtain ⟨hle, hall⟩ := ih (max highest r.hop)
      rw [List.foldl_cons, List.forall_mem_cons]
      exact ⟨by omega, by omega, hall⟩
  exact (hfold parents 0).2

/-- The hops a port may write again: in order and free of zero bytes. -/
structure HopsStable (parents : List (HopRecord ρ)) : Prop where
  ordered : parents.Pairwise fun a b => a.hop < b.hop
  bound : ∀ r ∈ parents, bindHop r = r

/-- A port keeps its parent's hops and adds its own at the end. -/
theorem HopsStable.writeHops {parents : List (HopRecord ρ)} (h : HopsStable parents)
    (record : HopRecord ρ) (hnew : ∀ r ∈ parents, r.hop < record.hop) :
    writeHops parents record = parents ++ [bindHop record] ∧
      HopsStable (parents ++ [bindHop record]) := by
  have hcopy (done rest : List (HopRecord ρ)) (hd : done ++ rest = parents) :
      rest.foldl (fun rows r => insertHop (bindHop r) rows) done = parents := by
    induction rest generalizing done with
    | nil => simpa using hd
    | cons r rest ih =>
      have hord := h.ordered
      rw [← hd] at hord
      have hr : bindHop r = r := h.bound r (by simp [← hd])
      rw [List.foldl_cons, hr, insertHop_last r done fun x hx =>
        (List.pairwise_append.mp hord).2.2 x hx r List.mem_cons_self]
      exact ih _ (by simpa using hd)
  refine ⟨?_, ?_, ?_⟩
  · exact (congrArg _ (hcopy [] parents rfl)).trans (insertHop_last (bindHop record) _ hnew)
  · rw [List.pairwise_append]
    refine ⟨h.ordered, List.pairwise_singleton _ _, fun r hr x hx => ?_⟩
    obtain rfl := List.mem_singleton.mp hx
    exact hnew r hr
  · intro r hr
    rcases List.mem_append.mp hr with hr | hr
    · exact h.bound r hr
    · obtain rfl := List.mem_singleton.mp hr
      exact bindHop_bindHop record

/-- The digests of a history in port order. -/
def lineageOf (digests : List Text) : Text :=
  (text " -> ").intercalate (digests.map shownMd5)

theorem lineageOf_append (digests : List Text) (md5 : Text) (h : digests ≠ []) :
    lineageOf (digests ++ [md5]) = lineageOf digests ++ text " -> " ++ shownMd5 md5 := by
  have hsplit (sep x : Text) (l : List Text) (hl : l ≠ []) :
      sep.intercalate (l ++ [x]) = sep.intercalate l ++ sep ++ x := by
    induction l with
    | nil => exact absurd rfl hl
    | cons a l ih =>
      cases l with
      | nil => simp [List.intercalate]
      | cons b l =>
        have := ih (by simp)
        simp only [List.intercalate, List.cons_append, List.intersperse_cons_cons, List.flatten_cons,
          List.append_assoc] at this ⊢
        rw [this]
  rw [lineageOf, List.map_append, List.map_singleton, hsplit _ _ _ (by simpa using h)]
  rfl

theorem hexDigit_ne_zero (n : UInt8) (h : n.toNat < 16) : hexDigit n ≠ 0 := by
  have h48 : (48 + n).toNat = 48 + n.toNat := by
    rw [UInt8.toNat_add]
    exact Nat.mod_eq_of_lt (by simp only [UInt8.reduceToNat]; omega)
  have h87 : (87 + n).toNat = 87 + n.toNat := by
    rw [UInt8.toNat_add]
    exact Nat.mod_eq_of_lt (by simp only [UInt8.reduceToNat]; omega)
  rw [ne_eq, ← UInt8.toNat_inj, hexDigit]
  split_ifs
  · rw [h48]
    simp only [UInt8.reduceToNat]
    omega
  · rw [h87]
    simp only [UInt8.reduceToNat]
    omega

/-- A digest, as text or as hex, holds no zero byte. -/
theorem shownMd5_terminated (d : Database ρ) : (0 : UInt8) ∉ shownMd5 d.inputMd5 := by
  have hmd5 : (0 : UInt8) ∉ d.inputMd5 := by
    unfold Database.inputMd5 columnTextOrHex
    cases d.md5 with
    | missing => exact List.not_mem_nil
    | digest t terminated => exact terminated
    | blob bytes =>
      intro h
      obtain ⟨b, -, hb⟩ := List.mem_flatMap.mp h
      have hlt := b.toNat_lt
      have hdiv : (b/16).toNat < 16 := by
        rw [UInt8.toNat_div]
        simp only [UInt8.reduceToNat]
        omega
      have hmod : (b%16).toNat < 16 := by
        rw [UInt8.toNat_mod]
        simp only [UInt8.reduceToNat]
        omega
      simp only [List.mem_cons, List.not_mem_nil, or_false] at hb
      rcases hb with hb | hb
      · exact hexDigit_ne_zero _ hdiv hb.symm
      · exact hexDigit_ne_zero _ hmod hb.symm
  unfold shownMd5
  split_ifs
  · decide
  · exact hmd5

theorem lineageOf_terminated (digests : List Text) (h : ∀ t ∈ digests, (0 : UInt8) ∉ shownMd5 t) :
    (0 : UInt8) ∉ lineageOf digests := by
  induction digests with
  | nil => exact List.not_mem_nil
  | cons a l ih =>
    obtain ⟨ha, hl⟩ := List.forall_mem_cons.mp h
    cases l with
    | nil => simpa [lineageOf, List.intercalate] using ha
    | cons b l =>
      have hcons : lineageOf (a::b::l) = shownMd5 a ++ text " -> " ++ lineageOf (b::l) := by
        simp [lineageOf, List.intercalate, List.append_assoc]
      have harrow : (0 : UInt8) ∉ text " -> " := by decide
      rw [hcons, List.mem_append, List.mem_append, not_or, not_or]
      exact ⟨⟨ha, harrow⟩, ih hl⟩

/-- The input digests of a chain, the first reference's first. -/
def chainDigests (start : Database ρ) : List (PortRequest ρ) → List Text
  | [] => [start.inputMd5]
  | request::earlier => chainDigests start earlier ++ [request.target.inputMd5]

theorem chainDigests_ne_nil (start : Database ρ) (requests : List (PortRequest ρ)) :
    chainDigests start requests ≠ [] := by
  cases requests <;> simp [chainDigests]

theorem chainDigests_terminated (start : Database ρ) (requests : List (PortRequest ρ)) :
    ∀ t ∈ chainDigests start requests, (0 : UInt8) ∉ shownMd5 t := by
  induction requests with
  | nil => simpa [chainDigests] using shownMd5_terminated start
  | cons request earlier ih =>
    intro t ht
    rcases List.mem_append.mp ht with ht | ht
    · exact ih t ht
    · obtain rfl := List.mem_singleton.mp ht
      exact shownMd5_terminated request.target

/-- What holds of the output of every chain that starts at an export. -/
structure ChainOutput (start : Database ρ) (requests : List (PortRequest ρ)) (d : Database ρ) :
    Prop where
  hops : HopsStable d.provenance
  count : d.provenance.length = requests.length
  lineage : requests ≠ [] → d.lineage = lineageOf (chainDigests start requests)
  md5 : (chainDigests start requests).getLast? = some d.inputMd5

/-- The lineage of a port after a chain. -/
theorem buildLineage_chain {start : Database ρ} {earlier : List (PortRequest ρ)}
    {reference : Database ρ} (hc : ChainOutput start earlier reference) (md5 : Text) :
    buildLineage reference.lineage reference.inputMd5 md5 =
      lineageOf (chainDigests start earlier ++ [md5]) := by
  rw [lineageOf_append _ _ (chainDigests_ne_nil start earlier)]
  unfold buildLineage
  cases earlier with
  | nil =>
    have hnone : reference.provenance = [] := List.length_eq_zero_iff.mp hc.count
    have hmd5 : start.inputMd5 = reference.inputMd5 := Option.some.inj hc.md5
    rw [if_pos (by simp [Database.lineage, hnone]), ← hmd5]
    simp [chainDigests, lineageOf, List.intercalate]
  | cons request earlier =>
    have hlineage := hc.lineage (by simp)
    have hne : ¬ reference.lineage.isEmpty = true := by
      rw [hlineage, chainDigests, lineageOf_append _ _ (chainDigests_ne_nil start earlier)]
      simp [text]
    rw [if_neg hne, hlineage]

end

section
variable {ρ : Type} [Zero ρ] [One ρ] [Mul ρ] [LT ρ] [DecidableLT ρ]

/-- A chain of ports, the latest first: each output is the next reference. -/
def runPorts (start : Database ρ) : List (PortRequest ρ) → Except PortError (Database ρ)
  | [] => .ok start
  | request::earlier =>
    match runPorts start earlier with
    | .error e => .error e
    | .ok reference =>
      match portLabels request reference with
      | .error e => .error e
      | .ok result => .ok result.database

theorem runPorts_cons (start : Database ρ) (request : PortRequest ρ)
    (earlier : List (PortRequest ρ)) (d : Database ρ)
    (h : runPorts start (request::earlier) = .ok d) :
    ∃ reference result, runPorts start earlier = .ok reference ∧
      portLabels request reference = .ok result ∧ result.database = d := by
  unfold runPorts at h
  split at h
  · cases h
  · rename_i reference hreference
    split at h
    · cases h
    · rename_i result hresult
      exact ⟨reference, result, hreference, hresult, Except.ok.inj h⟩

variable {start : Database ρ} {request : PortRequest ρ} {earlier : List (PortRequest ρ)}
  {reference : Database ρ} {result : LabelPortResult ρ}

/-- The record a port adds to its reference's hops. -/
theorem portLabels_record (h : portLabels request reference = .ok result) :
    ∃ record : HopRecord ρ, result.database.provenance = writeHops reference.provenance record ∧
      record.hop = highestParentHop reference.provenance + 1 ∧
      record.lineage = buildLineage reference.lineage reference.inputMd5 request.target.inputMd5 ∧
      result.database.md5 = request.target.md5 := by
  obtain ⟨_, _, _, _, hrun⟩ := portLabels_ok request reference result h
  exact ⟨_, hrun.provenance, rfl, rfl, hrun.md5⟩

theorem ChainOutput.port (hc : ChainOutput start earlier reference)
    (h : portLabels request reference = .ok result) :
    ChainOutput start (request::earlier) result.database ∧
    ∃ record, result.database.provenance = reference.provenance ++ [record] ∧
      ∀ r ∈ reference.provenance, r.hop < record.hop := by
  obtain ⟨record, hprov, hhop, hlineage, hmd5⟩ := portLabels_record h
  have hnew : ∀ r ∈ reference.provenance, r.hop < record.hop := fun r hr => by
    have := le_highestParentHop reference.provenance r hr
    omega
  obtain ⟨hwrite, hstable⟩ := hc.hops.writeHops record hnew
  rw [hwrite] at hprov
  have hmd5' : result.database.inputMd5 = request.target.inputMd5 := by
    rw [Database.inputMd5, hmd5, Database.inputMd5]
  refine ⟨⟨hprov ▸ hstable, ?_, fun _ => ?_, ?_⟩, bindHop record, hprov, hnew⟩
  · rw [hprov, List.length_append, hc.count]
    rfl
  · have hlast : result.database.lineage = cString record.lineage := by
      simp [Database.lineage, hprov, bindHop]
    rw [hlast, hlineage, buildLineage_chain hc, cString_eq_self]
    · rfl
    · exact lineageOf_terminated _ (chainDigests_terminated start (request::earlier))
  · rw [chainDigests, List.getLast?_concat, hmd5']

theorem runPorts_output (hstart : start.IsExport) (requests : List (PortRequest ρ))
    (d : Database ρ) (h : runPorts start requests = .ok d) : ChainOutput start requests d := by
  induction requests generalizing d with
  | nil =>
    obtain rfl := Except.ok.inj h
    refine ⟨⟨?_, ?_⟩, ?_, fun h => absurd rfl h, rfl⟩ <;> simp [hstart.1]
  | cons request earlier ih =>
    obtain ⟨reference, result, hearlier, hresult, rfl⟩ := runPorts_cons _ _ _ _ h
    exact ((ih reference hearlier).port hresult).1

end

end DSigMatcher.Port
