import PolicyDecision.Act

/-!
# Laws of operations

What a sequence of operations comes to, in terms of its parts; and properties of operations that
sequences inherit from their parts.

* `Act.Ensures I R x`: from every state in `I` the operation `x` ends in `I`, with a result in `R`;
  `Act.Keeps I x` says nothing of the result.
* `Act.Steady I x`: from every state in `I` the operation `x` comes to one and the same result,
  and it ends in `I`. Such an operation may fill a slot or count a use, but nothing that runs
  later can tell whether it ran.
* `Act.Parallel R x`: from two states that `R` relates the operation `x` comes to the same result,
  and it ends in two states that `R` relates.
* `Act.Avoids e x`: the operation `x` never fails with `e`.
* `Act.Leaves P x`: the operation `x` leaves nothing on the trail but events in `P`.

`Keeps`, `Steady`, `Avoids` and `Leaves` are `Act.Compositional`: predicates and trees have them when
their leaves do.
-/

namespace PolicyDecision.Act

variable {σ τ α β : Type}

/-! ### Single operations -/

@[simp] theorem pure_apply (a : α) (s : σ) : (Pure.pure a : Act σ α) s = ⟨.ok a, s, []⟩ := rfl

@[simp] theorem throw_apply (e : Error) (s : σ) :
    (throw e : Act σ α) s = ⟨.error e, s, []⟩ := rfl

@[simp] theorem get_apply (s : σ) : (get : Act σ σ) s = ⟨.ok s, s, []⟩ := rfl

@[simp] theorem set_apply (s t : σ) : (set t : Act σ PUnit) s = ⟨.ok (), t, []⟩ := rfl

@[simp] theorem modify_apply (f : σ → σ) (s : σ) :
    (modify f : Act σ PUnit) s = ⟨.ok (), f s, []⟩ := rfl

@[simp] theorem record_apply (event : Event) (s : σ) : record event s = ⟨.ok (), s, [event]⟩ := rfl

@[simp] theorem recordAll_apply (events : Trail) (s : σ) :
    recordAll events s = ⟨.ok (), s, events⟩ := rfl

@[simp] theorem log_apply (notice : Notice) (s : σ) :
    log notice s = ⟨.ok (), s, [.logged notice]⟩ := rfl

@[simp] theorem ofExcept_apply (r : Except Error α) (s : σ) : ofExcept r s = ⟨r, s, []⟩ := rfl

@[simp] theorem zoom_apply (part : σ → τ) (put : τ → σ → σ) (x : Act τ α) (s : σ) :
    zoom part put x s = ⟨(x (part s)).result, put (x (part s)).state s, (x (part s)).trail⟩ := rfl

@[simp] theorem ofAudited_apply (x : Audited α) (s : σ) :
    ofAudited x s = ⟨(x ()).result, s, (x ()).trail⟩ := rfl

/-! ### Sequences -/

theorem bind_apply (x : Act σ α) (f : α → Act σ β) (s : σ) :
    (x >>= f) s =
      match (x s).result with
      | .ok a => ⟨(f a (x s).state).result, (f a (x s).state).state,
          (x s).trail ++ (f a (x s).state).trail⟩
      | .error e => ⟨.error e, (x s).state, (x s).trail⟩ := rfl

theorem bind_ok {x : Act σ α} {f : α → Act σ β} {s : σ} {a : α} (h : (x s).result = .ok a) :
    (x >>= f) s = ⟨(f a (x s).state).result, (f a (x s).state).state,
      (x s).trail ++ (f a (x s).state).trail⟩ := by
  rw [bind_apply, h]

theorem bind_error {x : Act σ α} {f : α → Act σ β} {s : σ} {e : Error}
    (h : (x s).result = .error e) : (x >>= f) s = ⟨.error e, (x s).state, (x s).trail⟩ := by
  rw [bind_apply, h]

/-- A sequence answers exactly when both of its parts do. -/
theorem bind_eq_ok {x : Act σ α} {f : α → Act σ β} {s : σ} {b : β} :
    ((x >>= f) s).result = .ok b ↔
      ∃ a, (x s).result = .ok a ∧ (f a (x s).state).result = .ok b := by
  cases h : (x s).result with
  | ok a => simp [bind_ok h]
  | error e => simp [bind_error h]

/-- A sequence fails when its first part does, or its second part after an answer of the first. -/
theorem bind_eq_error {x : Act σ α} {f : α → Act σ β} {s : σ} {e : Error} :
    ((x >>= f) s).result = .error e ↔
      (x s).result = .error e ∨
        ∃ a, (x s).result = .ok a ∧ (f a (x s).state).result = .error e := by
  cases h : (x s).result with
  | ok a => simp [bind_ok h]
  | error e' => simp [bind_error h]

/-- The events of a sequence are those of its parts. -/
theorem mem_trail_bind {x : Act σ α} {f : α → Act σ β} {s : σ} {event : Event} :
    event ∈ ((x >>= f) s).trail ↔
      event ∈ (x s).trail ∨
        ∃ a, (x s).result = .ok a ∧ event ∈ (f a (x s).state).trail := by
  cases h : (x s).result with
  | ok a => simp [bind_ok h]
  | error e => simp [bind_error h]

/-! ### Results and states afterwards -/

/-- From every state in `I` the operation ends in `I`, with a result in `R`. -/
structure Ensures (I : σ → Prop) (R : Except Error α → Prop) (x : Act σ α) : Prop where
  keeps : ∀ s, I s → I (x s).state
  result : ∀ s, I s → R (x s).result

/-- The results that are an answer in `Q`. -/
def Gives (Q : α → Prop) (r : Except Error α) : Prop :=
  ∃ a, r = .ok a ∧ Q a

variable {I : σ → Prop} {R : Except Error α → Prop} {S : Except Error β → Prop}

/-- State and result taken together, state by state. -/
theorem ensures_of {x : Act σ α} (h : ∀ s, I s → I (x s).state ∧ R (x s).result) : Ensures I R x :=
  ⟨fun s hs => (h s hs).1, fun s hs => (h s hs).2⟩

theorem ensures_pure {a : α} (h : R (.ok a)) : Ensures I R (Pure.pure a : Act σ α) :=
  ⟨fun _ hs => hs, fun _ _ => h⟩

theorem ensures_get : Ensures I (Gives I) (get : Act σ σ) :=
  ⟨fun _ hs => hs, fun s hs => ⟨s, rfl, hs⟩⟩

theorem ensures_throw {e : Error} (h : R (.error e)) : Ensures I R (throw e : Act σ α) :=
  ⟨fun _ hs => hs, fun _ _ => h⟩

theorem ensures_record {R : Except Error Unit → Prop} (event : Event) (h : R (.ok ())) :
    Ensures I R (record event : Act σ Unit) :=
  ⟨fun _ hs => hs, fun _ _ => h⟩

theorem ensures_ofExcept {r : Except Error α} (h : R r) : Ensures I R (ofExcept r : Act σ α) :=
  ⟨fun _ hs => hs, fun _ _ => h⟩

theorem Ensures.bind {x : Act σ α} {f : α → Act σ β} (hx : Ensures I R x)
    (herror : ∀ e, R (.error e) → S (.error e)) (hf : ∀ a, R (.ok a) → Ensures I S (f a)) :
    Ensures I S (x >>= f) := by
  refine ensures_of fun s hs => ?_
  have hresult := hx.result s hs
  -- Whether the first part answers decides what there is to show of the second.
  cases h : (x s).result with
  | error e =>
    rw [bind_error h]
    exact ⟨hx.keeps s hs, herror e (h ▸ hresult)⟩
  | ok a =>
    rw [bind_ok h]
    have hnext := hf a (h ▸ hresult)
    exact ⟨hnext.keeps _ (hx.keeps s hs), hnext.result _ (hx.keeps s hs)⟩

theorem Ensures.mono {R' : Except Error α → Prop} {x : Act σ α} (hx : Ensures I R x)
    (h : ∀ r, R r → R' r) : Ensures I R' x :=
  ⟨hx.keeps, fun s hs => h _ (hx.result s hs)⟩

/-- An operation on a part of the state, when the part stays in its own set. -/
theorem Ensures.zoom {J : τ → Prop} {x : Act τ α} (hx : Ensures J R x) {part : σ → τ}
    {put : τ → σ → σ} (hpart : ∀ s, I s → J (part s)) (hput : ∀ s t, I s → J t → I (put t s)) :
    Ensures I R (zoom part put x) :=
  ⟨fun s hs => hput s _ hs (hx.keeps _ (hpart s hs)), fun s hs => hx.result _ (hpart s hs)⟩

/-- A first part that gives an answer for certain. -/
theorem Ensures.bind_gives {Q : α → Prop} {x : Act σ α} {f : α → Act σ β}
    (hx : Ensures I (Gives Q) x) (hf : ∀ a, Q a → Ensures I S (f a)) : Ensures I S (x >>= f) := by
  apply hx.bind
  · rintro e ⟨a, ha, -⟩
    cases ha
  · rintro a ⟨b, hb, hQ⟩
    cases hb
    exact hf a hQ

/-- An event before an operation makes no difference. -/
theorem Ensures.record {x : Act σ α} (event : Event) (hx : Ensures I R x) :
    Ensures I R (Act.record event >>= fun _ => x) :=
  (ensures_record event ⟨(), rfl, trivial⟩ : Ensures I (Gives fun _ => True) _).bind_gives fun _ _ => hx

theorem ensures_modify {f : σ → σ} (h : ∀ s, I s → I (f s)) {R : Except Error PUnit → Prop}
    (hR : R (.ok ())) : Ensures I R (modify f) :=
  ⟨h, fun _ _ => hR⟩

/-- From every state in `I` the operation ends in `I`. -/
abbrev Keeps (I : σ → Prop) (x : Act σ α) : Prop :=
  Ensures I (fun _ => True) x

theorem Ensures.forget {x : Act σ α} (hx : Ensures I R x) : Keeps I x :=
  hx.mono fun _ _ => trivial

theorem keeps_true (x : Act σ α) : Keeps (fun _ => True) x :=
  ⟨fun _ _ => trivial, fun _ _ => trivial⟩

theorem keeps_pure (a : α) : Keeps I (Pure.pure a : Act σ α) :=
  ensures_pure trivial

theorem keeps_get : Keeps I (get : Act σ σ) :=
  ⟨fun _ hs => hs, fun _ _ => trivial⟩

theorem keeps_throw (e : Error) : Keeps I (throw e : Act σ α) :=
  ensures_throw trivial

theorem keeps_record (event : Event) : Keeps I (record event : Act σ Unit) :=
  ensures_record event trivial

theorem Keeps.bind {x : Act σ α} {f : α → Act σ β} (hx : Keeps I x) (hf : ∀ a, Keeps I (f a)) :
    Keeps I (x >>= f) :=
  Ensures.bind hx (fun _ _ => trivial) fun a _ => hf a

theorem Keeps.mapM {f : α → Act σ β} {as : List α} (hf : ∀ a ∈ as, Keeps I (f a)) :
    Keeps I (as.mapM f) := by
  induction as with
  | nil => exact keeps_pure []
  | cons a as ih =>
    rw [List.mapM_cons]
    apply Keeps.bind (hf a List.mem_cons_self)
    intro b
    exact Keeps.bind (ih fun a' ha' => hf a' (List.mem_cons_of_mem a ha')) fun _ => keeps_pure _

/-! ### Steady operations -/

/-- From every state in `I` the operation comes to the same result, and it ends in `I`. -/
def Steady (I : σ → Prop) (x : Act σ α) : Prop :=
  ∃ r, ∀ s, I s → (x s).result = r ∧ I (x s).state

theorem Steady.result_eq {x : Act σ α} (hx : Steady I x) {s t : σ} (hs : I s) (ht : I t) :
    (x s).result = (x t).result := by
  obtain ⟨r, hr⟩ := hx
  rw [(hr s hs).1, (hr t ht).1]

theorem Steady.inv {x : Act σ α} (hx : Steady I x) {s : σ} (hs : I s) : I (x s).state := by
  obtain ⟨r, hr⟩ := hx
  exact (hr s hs).2

theorem Steady.keeps {x : Act σ α} (hx : Steady I x) : Keeps I x :=
  ⟨fun _ hs => hx.inv hs, fun _ _ => trivial⟩

theorem Ensures.steady {x : Act σ α} {r : Except Error α} (hx : Ensures I (· = r) x) :
    Steady I x :=
  ⟨r, fun s hs => ⟨hx.result s hs, hx.keeps s hs⟩⟩

/-- What a steady operation comes to in one state is what it comes to in all. -/
theorem Steady.ensures {x : Act σ α} (hx : Steady I x) {s : σ} (hs : I s) :
    Ensures I (· = (x s).result) x :=
  ⟨fun _ ht => hx.inv ht, fun _ ht => hx.result_eq ht hs⟩

theorem steady_pure (a : α) : Steady I (Pure.pure a : Act σ α) :=
  ⟨.ok a, fun _ hs => ⟨rfl, hs⟩⟩

theorem steady_record (event : Event) : Steady I (record event : Act σ Unit) :=
  ⟨.ok (), fun _ hs => ⟨rfl, hs⟩⟩

theorem steady_ofExcept (r : Except Error α) : Steady I (ofExcept r : Act σ α) :=
  ⟨r, fun _ hs => ⟨rfl, hs⟩⟩

theorem Steady.bind {x : Act σ α} {f : α → Act σ β} (hx : Steady I x)
    (hf : ∀ a, Steady I (f a)) : Steady I (x >>= f) := by
  obtain ⟨rx, hx⟩ := hx
  -- The answer of `x` is one for all states, so the same `f a` follows in each of them.
  cases rx with
  | error e =>
    refine ⟨.error e, fun s hs => ?_⟩
    rw [bind_error (hx s hs).1]
    exact ⟨rfl, (hx s hs).2⟩
  | ok a =>
    obtain ⟨rf, hf⟩ := hf a
    refine ⟨rf, fun s hs => ?_⟩
    rw [bind_ok (hx s hs).1]
    exact hf _ (hx s hs).2

/-- A first part whose result is known. -/
theorem Ensures.bind_steady {x : Act σ α} {f : α → Act σ β} {r : Except Error α}
    (hx : Ensures I (· = r) x) (hf : ∀ a, r = .ok a → Steady I (f a)) : Steady I (x >>= f) := by
  cases r with
  | error e =>
    refine ⟨.error e, fun s hs => ?_⟩
    rw [bind_error (hx.result s hs)]
    exact ⟨rfl, hx.keeps s hs⟩
  | ok a =>
    obtain ⟨rf, hf⟩ := hf a rfl
    refine ⟨rf, fun s hs => ?_⟩
    rw [bind_ok (hx.result s hs)]
    exact hf _ (hx.keeps s hs)

/-- An operation on a part of the state is steady when the part stays in its own set. -/
theorem Steady.zoom {J : τ → Prop} {x : Act τ α} (hx : Steady J x) {part : σ → τ}
    {put : τ → σ → σ} (hpart : ∀ s, I s → J (part s)) (hput : ∀ s t, I s → J t → I (put t s)) :
    Steady I (zoom part put x) := by
  obtain ⟨r, hr⟩ := hx
  refine ⟨r, fun s hs => ?_⟩
  obtain ⟨hres, hst⟩ := hr (part s) (hpart s hs)
  exact ⟨hres, hput s _ hs hst⟩

theorem Steady.mapM {f : α → Act σ β} {as : List α} (hf : ∀ a ∈ as, Steady I (f a)) :
    Steady I (as.mapM f) := by
  induction as with
  | nil => exact steady_pure []
  | cons a as ih =>
    rw [List.mapM_cons]
    apply Steady.bind (hf a List.mem_cons_self)
    intro b
    refine Steady.bind (ih fun a' ha' => hf a' (List.mem_cons_of_mem a ha')) fun bs => ?_
    exact steady_pure _

/-! ### Two states side by side -/

/-- From two related states the operation comes to the same result, and it ends in related states. -/
def Parallel (R : σ → σ → Prop) (x : Act σ α) : Prop :=
  ∀ s t, R s t → (x s).result = (x t).result ∧ R (x s).state (x t).state

section Parallel

variable {R : σ → σ → Prop}

theorem parallel_pure (a : α) : Parallel R (Pure.pure a : Act σ α) :=
  fun _ _ h => ⟨rfl, h⟩

theorem parallel_throw (e : Error) : Parallel R (throw e : Act σ α) :=
  fun _ _ h => ⟨rfl, h⟩

theorem parallel_record (event : Event) : Parallel R (record event : Act σ Unit) :=
  fun _ _ h => ⟨rfl, h⟩

theorem parallel_ofExcept (r : Except Error α) : Parallel R (ofExcept r : Act σ α) :=
  fun _ _ h => ⟨rfl, h⟩

theorem parallel_eq (x : Act σ α) : Parallel (· = ·) x := by
  rintro s _ rfl
  exact ⟨rfl, rfl⟩

/-- A steady operation cannot tell two states apart. -/
theorem Steady.parallel {x : Act σ α} (hx : Steady I x) : Parallel (fun s t => I s ∧ I t) x :=
  fun _ _ h => ⟨hx.result_eq h.1 h.2, hx.inv h.1, hx.inv h.2⟩

theorem Parallel.bind {x : Act σ α} {f : α → Act σ β} (hx : Parallel R x)
    (hf : ∀ a, Parallel R (f a)) : Parallel R (x >>= f) := by
  intro s t h
  obtain ⟨hresult, hstate⟩ := hx s t h
  cases hfirst : (x s).result with
  | error e =>
    rw [bind_error hfirst, bind_error (hresult ▸ hfirst)]
    exact ⟨rfl, hstate⟩
  | ok a =>
    rw [bind_ok hfirst, bind_ok (hresult ▸ hfirst)]
    exact hf a _ _ hstate

/-- What goes on alike from related states may look at them. -/
theorem parallel_get_bind {f : σ → Act σ α} (hsame : ∀ s t, R s t → f s = f t)
    (hf : ∀ s, Parallel R (f s)) : Parallel R (get >>= f) := by
  intro s t h
  show (f s s).result = (f t t).result ∧ R (f s s).state (f t t).state
  rw [hsame s t h]
  exact hf t s t h

theorem Parallel.zoom {S : τ → τ → Prop} {x : Act τ α} (hx : Parallel S x) {part : σ → τ}
    {put : τ → σ → σ} (hpart : ∀ s t, R s t → S (part s) (part t))
    (hput : ∀ s t u v, R s t → S u v → R (put u s) (put v t)) : Parallel R (zoom part put x) := by
  intro s t h
  obtain ⟨hresult, hstate⟩ := hx _ _ (hpart s t h)
  exact ⟨hresult, hput s t _ _ h hstate⟩

end Parallel

/-! ### Avoided errors -/

/-- The operation never fails with `e`. -/
def Avoids (e : Error) (x : Act σ α) : Prop :=
  ∀ s, (x s).result ≠ .error e

variable {e : Error}

theorem avoids_pure (a : α) : Avoids e (Pure.pure a : Act σ α) :=
  fun _ => nofun

theorem avoids_record (event : Event) : Avoids e (record event : Act σ Unit) :=
  fun _ => nofun

theorem avoids_ofExcept {r : Except Error α} (h : r ≠ .error e) :
    Avoids e (ofExcept r : Act σ α) :=
  fun _ => h

theorem Avoids.bind {x : Act σ α} {f : α → Act σ β} (hx : Avoids e x)
    (hf : ∀ a, Avoids e (f a)) : Avoids e (x >>= f) := by
  intro s hs
  rcases bind_eq_error.1 hs with h | ⟨a, -, h⟩
  · exact hx s h
  · exact hf a _ h

theorem Avoids.zoom {x : Act τ α} (hx : Avoids e x) (part : σ → τ) (put : τ → σ → σ) :
    Avoids e (zoom part put x) :=
  fun s => hx (part s)

/-! ### Events on the trail -/

/-- The operation leaves nothing on the trail but events in `P`. -/
def Leaves (P : Event → Prop) (x : Act σ α) : Prop :=
  ∀ s, ∀ event ∈ (x s).trail, P event

variable {P : Event → Prop}

theorem leaves_pure (a : α) : Leaves P (Pure.pure a : Act σ α) := by
  intro s event hevent
  cases hevent

theorem leaves_throw (e : Error) : Leaves P (throw e : Act σ α) := by
  intro s event hevent
  cases hevent

theorem leaves_get : Leaves P (get : Act σ σ) := by
  intro s event hevent
  cases hevent

theorem leaves_modify (f : σ → σ) : Leaves P (modify f : Act σ PUnit) := by
  intro s event hevent
  cases hevent

theorem leaves_ofExcept (r : Except Error α) : Leaves P (ofExcept r : Act σ α) := by
  intro s event hevent
  cases hevent

theorem leaves_record {event : Event} (h : P event) : Leaves P (record event : Act σ Unit) := by
  intro s event' hevent
  rwa [List.mem_singleton.1 hevent]

theorem leaves_recordAll {events : Trail} (h : ∀ event ∈ events, P event) :
    Leaves P (recordAll events : Act σ Unit) :=
  fun _ => h

theorem Leaves.bind {x : Act σ α} {f : α → Act σ β} (hx : Leaves P x) (hf : ∀ a, Leaves P (f a)) :
    Leaves P (x >>= f) := by
  intro s event hevent
  rcases mem_trail_bind.1 hevent with hevent | ⟨a, -, hevent⟩
  · exact hx s event hevent
  · exact hf a _ event hevent

theorem Leaves.mono {P' : Event → Prop} {x : Act σ α} (hx : Leaves P x)
    (h : ∀ event, P event → P' event) : Leaves P' x :=
  fun s event hevent => h event (hx s event hevent)

theorem Leaves.zoom {x : Act τ α} (hx : Leaves P x) (part : σ → τ) (put : τ → σ → σ) :
    Leaves P (zoom part put x) :=
  fun s => hx (part s)

theorem Leaves.mapM {f : α → Act σ β} {as : List α} (hf : ∀ a, Leaves P (f a)) :
    Leaves P (as.mapM f) := by
  induction as with
  | nil => exact leaves_pure []
  | cons a as ih =>
    rw [List.mapM_cons]
    exact (hf a).bind fun b => ih.bind fun bs => leaves_pure _

/-! ### Compositional properties -/

/-- A property of questions that a constant answer has, and a question that depends on the answer
to another if each of them has it. -/
structure Compositional (P : Act σ Bool → Prop) : Prop where
  pure : ∀ b, P (Pure.pure b)
  bind : ∀ {x f}, P x → (∀ b, P (f b)) → P (x >>= f)

theorem compositional_steady : Compositional fun x : Act σ Bool => Steady I x where
  pure := steady_pure
  bind := Steady.bind

theorem compositional_keeps : Compositional fun x : Act σ Bool => Keeps I x where
  pure := keeps_pure
  bind := Keeps.bind

theorem compositional_leaves : Compositional fun x : Act σ Bool => Leaves P x where
  pure := leaves_pure
  bind := Leaves.bind

theorem compositional_avoids : Compositional fun x : Act σ Bool => Avoids e x where
  pure := avoids_pure
  bind := Avoids.bind

end PolicyDecision.Act
