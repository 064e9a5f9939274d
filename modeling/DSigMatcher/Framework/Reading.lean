import Mathlib.Data.List.Basic

namespace DSigMatcher.Framework

variable {ε κ α β γ σ : Type*}

/-- What a consumer sees of a source that it calls up to its end or its first error; nothing yet,
where so many calls do not do. -/
def readAll (next : σ → Except ε (Option α) × σ) : Nat → σ → Option (List α × Option ε)
  | 0, _ => none
  | n+1, s =>
    match next s with
    | (.error e,_) => some ([],some e)
    | (.ok none,_) => some ([],none)
    | (.ok (some a),s) => (readAll next n s).map fun r => (a::r.1,r.2)

/-- What so many calls give, up to the end or the first error. -/
def collect (next : σ → Except ε (Option α) × σ) : Nat → σ → List (Except ε α)
  | 0, _ => []
  | n+1, s =>
    match next s with
    | (.error e,_) => [.error e]
    | (.ok none,_) => []
    | (.ok (some a),s) => .ok a::collect next n s

/-- What is seen of a list of results. -/
def readList : List (Except ε α) → List α × Option ε
  | [] => ([],none)
  | .error e::_ => ([],some e)
  | .ok a::rs => (a::(readList rs).1,(readList rs).2)

/-- A source gives the results of a list, one a call, and ends behind them. -/
def Gives (next : σ → Except ε (Option α) × σ) : List (Except ε α) → σ → Prop
  | [], s => (next s).1 = .ok none
  | .error e::_, s => (next s).1 = .error e
  | .ok a::rs, s => (next s).1 = .ok (some a) ∧ Gives next rs (next s).2

theorem Gives.readAll {next : σ → Except ε (Option α) × σ} {rs : List (Except ε α)} {s : σ}
    (h : Gives next rs s) {n : Nat} (hn : rs.length < n) :
    readAll next n s = some (readList rs) := by
  induction n generalizing rs s with
  | zero => omega
  | succ n ih =>
    rw [Framework.readAll]
    rcases hnext : next s with ⟨r, t⟩
    match rs, h with
    | [], h =>
      rw [Gives, hnext] at h
      obtain rfl : r = .ok none := h
      rfl
    | .error e::rs, h =>
      rw [Gives, hnext] at h
      obtain rfl : r = .error e := h
      rfl
    | .ok a::rs, h =>
      rw [Gives, hnext] at h
      obtain ⟨hr, hrest⟩ := h
      obtain rfl : r = .ok (some a) := hr
      simp only
      rw [ih hrest (Nat.lt_of_succ_lt_succ hn)]
      rfl

/-- A source that grows smaller with each element gives what is collected of it. -/
theorem gives_collect {next : σ → Except ε (Option α) × σ} {size : σ → Nat}
    (hsize : ∀ s a t, next s = (.ok (some a),t) → size t < size s) {n : Nat} {s : σ} (h : size s < n) :
    Gives next (collect next n s) s := by
  induction n generalizing s with
  | zero => omega
  | succ n ih =>
    rw [collect]
    rcases hnext : next s with ⟨r, t⟩
    rcases r with e | a
    · rw [Gives, hnext]
    cases a with
    | none => rw [Gives, hnext]
    | some a =>
      have ht := hsize s a t hnext
      rw [Gives, hnext]
      exact ⟨rfl, ih (by omega)⟩

/-- A source that gives a list has nothing else to collect. -/
theorem Gives.mem_of_collect {next : σ → Except ε (Option α) × σ} {rs : List (Except ε α)} {s : σ}
    (h : Gives next rs s) {n : Nat} {a : α} (ha : Except.ok a ∈ collect next n s) :
    Except.ok a ∈ rs := by
  induction n generalizing rs s with
  | zero => cases ha
  | succ n ih =>
    rw [collect] at ha
    rcases hnext : next s with ⟨r, t⟩
    rw [hnext] at ha
    rcases r with e | b
    · cases List.mem_singleton.mp ha
    cases b with
    | none => cases ha
    | some b =>
      match rs, h with
      | [], h =>
        rw [Gives, hnext] at h
        cases h
      | .error e::rs, h =>
        rw [Gives, hnext] at h
        cases h
      | .ok c::rs, h =>
        rw [Gives, hnext] at h
        obtain ⟨hb, hrest⟩ := h
        obtain rfl := Option.some.inj (Except.ok.inj hb)
        rcases List.mem_cons.mp ha with ha | ha
        · exact ha ▸ List.mem_cons_self
        · exact List.mem_cons_of_mem _ (ih hrest ha)

theorem collect_succ {next : σ → Except ε (Option α) × σ} {s t : σ} {a : α}
    (h : next s = (.ok (some a),t)) (n : Nat) :
    collect next (n+1) s = .ok a::collect next n t := by
  rw [collect, h]

/-- What holds of each element that a source gives on its way holds of all that is collected. -/
theorem collect_forall {next : σ → Except ε (Option α) × σ} {P : σ → Prop} {Q : α → Prop}
    (hnext : ∀ s a t, P s → next s = (.ok (some a),t) → Q a ∧ P t) {n : Nat} {s : σ} (hs : P s) {a : α}
    (ha : Except.ok a ∈ collect next n s) : Q a := by
  induction n generalizing s with
  | zero => cases ha
  | succ n ih =>
    rw [collect] at ha
    rcases hstep : next s with ⟨r, t⟩
    rw [hstep] at ha
    rcases r with e | b
    · cases List.mem_singleton.mp ha
    cases b with
    | none => cases ha
    | some b =>
      obtain ⟨hb, ht⟩ := hnext s b t hs hstep
      rcases List.mem_cons.mp ha with ha | ha
      · exact Except.ok.inj ha ▸ hb
      · exact ih ht ha

/-- A source whose elements stand for those of another gives only such as the other gives. -/
theorem mem_collect_map {next : σ → Except ε (Option α) × σ} {next' : σ → Except ε (Option β) × σ}
    {f : β → α} (hnext : ∀ s b t, next' s = (.ok (some b),t) → next s = (.ok (some (f b)),t)) {n : Nat}
    {s : σ} {b : β} (hb : Except.ok b ∈ collect next' n s) : Except.ok (f b) ∈ collect next n s := by
  induction n generalizing s with
  | zero => cases hb
  | succ n ih =>
    rw [collect] at hb
    rcases hstep : next' s with ⟨r, t⟩
    rw [hstep] at hb
    rcases r with e | a
    · cases List.mem_singleton.mp hb
    cases a with
    | none => cases hb
    | some a =>
      rw [collect_succ (hnext s a t hstep)]
      rcases List.mem_cons.mp hb with hb | hb
      · rw [← Except.ok.inj hb]
        exact List.mem_cons_self
      · exact List.mem_cons_of_mem _ (ih hb)

/-- Sources whose errors are alike are seen alike. -/
theorem readList_congr (kind : ε → κ) (f g : β → Except ε α) (bs : List β)
    (h : ∀ b ∈ bs, (f b).mapError kind = (g b).mapError kind) :
    (readList (bs.map f)).1 = (readList (bs.map g)).1 ∧
      (readList (bs.map f)).2.map kind = (readList (bs.map g)).2.map kind := by
  induction bs with
  | nil => exact ⟨rfl, rfl⟩
  | cons b bs ih =>
    have hb := h b List.mem_cons_self
    obtain ⟨hrows, herror⟩ := ih fun c hc => h c (List.mem_cons_of_mem b hc)
    rw [List.map_cons, List.map_cons]
    cases hf : f b with
    | error e =>
      cases hg : g b with
      | error e' =>
        rw [hf, hg] at hb
        exact ⟨rfl, congrArg some (Except.error.inj hb)⟩
      | ok a' =>
        rw [hf, hg] at hb
        cases hb
    | ok a =>
      cases hg : g b with
      | error e' =>
        rw [hf, hg] at hb
        cases hb
      | ok a' =>
        rw [hf, hg] at hb
        obtain rfl := Except.ok.inj hb
        exact ⟨congrArg (a :: ·) hrows, herror⟩

/-- The elements come in order, each once, and all of them where there is no error. -/
theorem readList_keys (f : β → Except ε α) (key : α → γ) (g : β → γ) (bs : List β)
    (h : ∀ b ∈ bs, ∀ a, f b = .ok a → key a = g b) :
    (readList (bs.map f)).1.map key = (bs.take (readList (bs.map f)).1.length).map g ∧
      ((readList (bs.map f)).2 = none → (readList (bs.map f)).1.length = bs.length) := by
  induction bs with
  | nil => exact ⟨rfl, fun _ => rfl⟩
  | cons b bs ih =>
    obtain ⟨hkeys, hall⟩ := ih fun c hc => h c (List.mem_cons_of_mem b hc)
    rw [List.map_cons]
    cases hf : f b with
    | error e => exact ⟨rfl, nofun⟩
    | ok a =>
      have ha := h b List.mem_cons_self a hf
      simp only [readList, List.map_cons, List.length_cons, List.take_succ_cons]
      rw [ha, hkeys]
      exact ⟨rfl, fun hnone => congrArg (·+1) (hall hnone)⟩

end DSigMatcher.Framework
