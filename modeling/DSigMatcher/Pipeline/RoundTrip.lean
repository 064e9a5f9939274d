import DSigMatcher.Pipeline.Growing

namespace DSigMatcher.Pipeline
open DSigMatcher.Base DSigMatcher.Json DSigMatcher.Framework DSigMatcher.Diff DSigMatcher.Checkpoint

/-- What every checkpoint taken of a session has: calls counted by cleanup site, the supported
schema, and the ratios beside the snapshot instead of in it. -/
structure Captured (c : EngineCheckpoint) : Prop where
  sites : ∀ x ∈ c.cleanupCounters, ∃ site : CleanupSite, x.1 = site.line
  schema : c.state.schema = snapshotSchema
  noCache : c.state.ratiosCache = none

theorem Captured.readable {c : EngineCheckpoint} (h : Captured c) (hreached : Reached c.cursor)
    (hiteration : c.cursor.iteration ≤ 1000000) : c.Readable := by
  refine ⟨⟨hreached.1, hiteration, hreached.2⟩, fun x hx => ?_, h.schema, h.noCache⟩
  obtain ⟨site, hsite⟩ := h.sites x hx
  rw [hsite]
  cases site <;> decide

/-- The guard of `CursorFromJson` on the iteration. -/
theorem fromJson_iteration (v : JsonValue) (place : Text) (c : PipelineCursor)
    (h : PipelineCursor.fromJson v place = .ok c) : c.iteration ≤ 1000000 := by
  unfold PipelineCursor.fromJson at h
  obtain ⟨done, -, h⟩ := bind_eq_ok.mp h
  split at h
  · cases h
  · obtain ⟨iteration, -, h⟩ := bind_eq_ok.mp h
    obtain ⟨u, hrange, h⟩ := bind_eq_ok.mp h
    obtain ⟨skipOthers, -, h⟩ := bind_eq_ok.mp h
    obtain ⟨oldTotal, -, h⟩ := bind_eq_ok.mp h
    dsimp only at h
    split_ifs at h
    obtain rfl := Except.ok.inj h
    have hle := require_eq_ok hrange
    simp only [Bool.and_eq_true, decide_eq_true_eq] at hle
    change iteration.toInt.toNat ≤ 1000000
    omega

theorem parseCheckpointState_iteration (json : Text) (c : EngineCheckpoint)
    (h : parseCheckpointState json = .ok c) : c.cursor.iteration ≤ 1000000 := by
  unfold parseCheckpointState at h
  obtain ⟨root, -, h⟩ := bind_eq_ok.mp h
  obtain ⟨-, -, h⟩ := bind_eq_ok.mp h
  obtain ⟨-, -, h⟩ := bind_eq_ok.mp h
  obtain ⟨binding, -, h⟩ := bind_eq_ok.mp h
  obtain ⟨binding, -, h⟩ := bind_eq_ok.mp h
  obtain ⟨member, -, h⟩ := bind_eq_ok.mp h
  obtain ⟨cursor, hcursor, h⟩ := bind_eq_ok.mp h
  obtain ⟨pointSeq, -, h⟩ := bind_eq_ok.mp h
  obtain ⟨counters, -, h⟩ := bind_eq_ok.mp h
  obtain ⟨dones, -, h⟩ := bind_eq_ok.mp h
  obtain ⟨state, -, h⟩ := bind_eq_ok.mp h
  obtain ⟨state, -, h⟩ := bind_eq_ok.mp h
  obtain ⟨-, -, h⟩ := bind_eq_ok.mp h
  obtain ⟨cache, -, h⟩ := bind_eq_ok.mp h
  obtain rfl := Except.ok.inj h
  exact fromJson_iteration member _ cursor hcursor

/-- A cursor that `diff()` reaches is accepted up to iteration 1000000. -/
theorem fromJson_reached (c : PipelineCursor) (hc : Reached c) (place : Text) :
    PipelineCursor.fromJson (.object c.members) place = .ok c ↔ c.iteration ≤ 1000000 := by
  refine ⟨fromJson_iteration _ place c, fun h => ?_⟩
  have hkeys : (c.members.map Prod.fst).Nodup := by
    change List.Nodup [text "done", text "iteration", text "skip_others", text "old_total"]
    decide
  exact c.fromJson_members ⟨hc.1, h, hc.2⟩ c.members hkeys (List.Subset.refl _) place

/-- The codecs round-trip: a cursor a run saves, and every checkpoint with it, comes back exactly
when its iteration is at most 1000000; every snapshot comes back, compact and pretty. -/
theorem checkpoint_roundTrip {ε : Type} (p : Stages ε) (rounds : Nat)
    (resume : Option PipelineCursor) (hresume : ∀ c ∈ resume, c.Readable) (s : Session ε) :
    (∀ x ∈ (p.runPipeline rounds resume s).saves,
      (∀ place, PipelineCursor.fromJson (.object x.1.members) place = .ok x.1 ↔
        x.1.iteration ≤ 1000000) ∧
      ∀ c : EngineCheckpoint, c.cursor = x.1 → Captured c →
        (parseCheckpointState (serializeCheckpointState c) = .ok c ↔
          x.1.iteration ≤ 1000000)) ∧
    ∀ (snapshot : StateSnapshot) (pretty : Bool), snapshot.schema = snapshotSchema →
      parseSnapshot (serializeSnapshot snapshot pretty) = .ok snapshot := by
  refine ⟨fun x hx => ?_, fun snapshot pretty hs => parseSnapshot_serialize snapshot hs pretty⟩
  have hreached := p.runPipeline_saves rounds s hresume x hx
  refine ⟨fun place => fromJson_reached x.1 hreached place, fun c hcursor hc => ?_⟩
  rw [← hcursor] at hreached ⊢
  constructor
  · exact parseCheckpointState_iteration _ c
  · intro hiteration
    exact parseCheckpointState_serialize c (hc.readable hreached hiteration)

/-- A checkpoint of a session that has not matched anything. -/
def emptyCheckpoint (cursor : PipelineCursor) : EngineCheckpoint where
  binding := ⟨text "1.0", text "3.51.1", [], 0, [], [], 0, [], false, text "native"⟩
  cursor := cursor
  state := {}
  ratiosCache := [⟨none, some [255, 0], 0⟩]
  hookDones := [(none,some [200])]
  pointSeq := 0
  cleanupCounters := [(3655,1)]

theorem emptyCheckpoint_captured (cursor : PipelineCursor) : Captured (emptyCheckpoint cursor) := by
  refine ⟨fun x hx => ?_, rfl, rfl⟩
  rw [List.mem_singleton.mp hx]
  exact ⟨.l3655, rfl⟩

theorem checkpoint_roundTrip_sample :
    ∃ x ∈ (growingStages.runPipeline 1 none emptySession).saves,
      parseCheckpointState (serializeCheckpointState (emptyCheckpoint x.1)) =
        .ok (emptyCheckpoint x.1) := by
  obtain ⟨x, hx, hiteration⟩ := growing_saves 1 (by decide) 0 (by decide)
  have h := (checkpoint_roundTrip growingStages 1 none (fun c hc => by cases hc) emptySession).1 x hx
  refine ⟨x, hx, (h.2 (emptyCheckpoint x.1) rfl (emptyCheckpoint_captured x.1)).mpr ?_⟩
  omega

/-- A run with 1000002 iterations saves a checkpoint that no reader gives back: the cursor check
refuses its iteration. -/
theorem checkpoint_rejects_late_iteration :
    ∃ x ∈ (growingStages.runPipeline 1000002 none emptySession).saves,
      x.1.iteration = 1000001 ∧
      PipelineCursor.fromJson (.object x.1.members) (text "cursor") ≠ .ok x.1 ∧
      parseCheckpointState (serializeCheckpointState (emptyCheckpoint x.1)) ≠
        .ok (emptyCheckpoint x.1) := by
  obtain ⟨x, hx, hiteration⟩ := growing_saves 1000002 (by decide) 1000001 (by decide)
  refine ⟨x, hx, hiteration, fun h => ?_, fun h => ?_⟩
  · have hle := fromJson_iteration _ _ _ h
    omega
  · have hle : x.1.iteration ≤ 1000000 := parseCheckpointState_iteration _ _ h
    omega

end DSigMatcher.Pipeline
