import PolicyDecision.Proofs.Reading
import PolicyDecision.Proofs.Valuation

/-!
# Predicates that are remembered

Compiling finds a predicate that is remembered under the written form of the tree, or makes one with
the operators that are registered now (`Checks.Comes`). So what holds of every predicate when it is
made holds of everything that is remembered (`Checks.Remembers`), as long as the operators stay.

The predicate that is found for a tree may be that of another tree that is written alike. The two trees
are alike, for no tree with a custom key named like a built-in one is looked up or remembered
(`Tree.Compiled`).
-/

namespace PolicyDecision

namespace Checks

/-- The checks have these operators, and whatever they remember is in `P`. -/
structure Remembers (registry : Registry) (P : String → ContextPredicate → Prop) (checks : Checks) :
    Prop where
  registry_eq : checks.registry = registry
  memo : ∀ memo, checks.memo = some memo → memo.Each P

/-- What compiling a tree comes to when everything that is remembered is in `P`. -/
inductive Comes (registry : Registry) (P : String → ContextPredicate → Prop) (t : Tree) :
    Except Error ContextPredicate → Prop
  /-- A custom key is named like a built-in one. -/
  | shadowed {name : String} (hname : Tree.shadowedBuiltin? t = some name) :
      Comes registry P t (.error (.unknownOperator name))
  /-- There is a predicate under the written form. -/
  | found {p : ContextPredicate} (hunshadowed : Tree.shadowedBuiltin? t = none)
      (hp : P (Tree.toJson t).compact p) : Comes registry P t (.ok p)
  /-- It is what making a predicate comes to. -/
  | made {r : Except Error ContextPredicate} (hr : (Tree.compile registry t ()).result = r) :
      Comes registry P t r

variable {registry : Registry} {P Q : String → ContextPredicate → Prop} {t : Tree}

theorem remembers_new (registry : Registry) (config : CacheConfig) :
    Remembers registry P ⟨registry, Memo.ofConfig config⟩ where
  registry_eq := rfl
  memo _ := Memo.each_of_ofConfig

theorem Remembers.mono {checks : Checks} (h : Remembers registry P checks)
    (hPQ : ∀ key p, P key p → Q key p) : Remembers registry Q checks :=
  ⟨h.registry_eq, fun memo hmemo => (h.memo memo hmemo).mono hPQ⟩

theorem make_apply (t : Tree) (checks : Checks) :
    make t checks = ⟨(Tree.compile checks.registry t ()).result, checks,
      (Tree.compile checks.registry t ()).trail⟩ := rfl

/-- **Compiling finds what is remembered or makes it anew, and remembers what it makes.** -/
theorem ensures_compile
    (hmade : ∀ p, Tree.shadowedBuiltin? t = none → (Tree.compile registry t ()).result = .ok p →
      P (Tree.toJson t).compact p) :
    Act.Ensures (Remembers registry P) (Comes registry P t) (compile t) := by
  apply Act.ensures_of
  rintro ⟨found, memo⟩ ⟨rfl, hmemo⟩
  cases memo with
  | none => exact ⟨⟨rfl, hmemo⟩, .made rfl⟩
  | some memo =>
    cases hshadowed : Tree.shadowedBuiltin? t with
    | some name =>
      simp only [compile, Act.bind_apply, Act.get_apply, hshadowed]
      exact ⟨⟨rfl, hmemo⟩, .shadowed hshadowed⟩
    | none =>
      obtain ⟨hhit, hrest⟩ := (hmemo memo rfl).get (Tree.toJson t).compact
      simp only [compile, Act.bind_apply, Act.get_apply, hshadowed, remembered, Act.modify_apply,
        Act.pure_apply]
      cases hget : (memo.get (Tree.toJson t).compact).1 with
      | some p =>
        refine ⟨⟨rfl, fun memo' hmemo' => ?_⟩, .found hshadowed (hhit p hget)⟩
        cases hmemo'
        exact hrest
      | none =>
        simp only [Act.bind_apply, make_apply]
        -- Only what was made is put into the memo; a failure leaves the look-up behind, no more.
        cases hmake : (Tree.compile found t ()).result with
        | error e =>
          refine ⟨⟨rfl, fun memo' hmemo' => ?_⟩, .made hmake⟩
          cases hmemo'
          exact hrest
        | ok p =>
          refine ⟨⟨rfl, fun memo' hmemo' => ?_⟩, .made hmake⟩
          cases hmemo'
          exact hrest.insert (hmade p hshadowed hmake)

end Checks

/-! ### Trees that are written alike -/

/-- The predicate was made, with these operators, of a tree in `source` that is written as the key
says. -/
def Checks.MadeOf (registry : Registry) (source : Tree → Prop) (key : String) (p : ContextPredicate) :
    Prop :=
  ∃ t, source t ∧ Tree.shadowedBuiltin? t = none ∧ (Tree.toJson t).compact = key ∧
    (Tree.compile registry t ()).result = .ok p

/-- What compiling a tree may come to when what is remembered was made of trees in `source`. -/
inductive Tree.Compiled (registry : Registry) (source : Tree → Prop) (t : Tree) :
    Except Error ContextPredicate → Prop
  /-- The predicate of a tree that is written alike. -/
  | ok {p : ContextPredicate} (u : Tree) (hsource : source u)
      (hwritten : (Tree.toJson u).compact = (Tree.toJson t).compact) (halike : Tree.Alike u t)
      (hp : (Tree.compile registry u ()).result = .ok p) : Compiled registry source t (.ok p)
  /-- A custom key is named like a built-in one. -/
  | shadowed {name : String} (hname : Tree.shadowedBuiltin? t = some name) :
      Compiled registry source t (.error (.unknownOperator name))
  | fault {e : Error} (he : (Tree.compile registry t ()).result = .error e) :
      Compiled registry source t (.error e)

variable {registry : Registry} {source : Tree → Prop} {t : Tree}

theorem Checks.Comes.compiled (ht : source t) {r : Except Error ContextPredicate}
    (h : Checks.Comes registry (Checks.MadeOf registry source) t r) :
    Tree.Compiled registry source t r := by
  cases h with
  | shadowed hname => exact .shadowed hname
  | found hunshadowed hp =>
    obtain ⟨u, hu, hunshadowed', hwritten, hp⟩ := hp
    exact .ok u hu hwritten (Tree.alike_of_compact_eq hunshadowed' hunshadowed hwritten) hp
  | made hr =>
    cases r with
    | ok p => exact .ok t ht rfl (.refl t) hr
    | error e => exact .fault hr

/-- What is made of a tree does what the tree says. -/
theorem Tree.eval_of_compile {p : ContextPredicate} (h : (Tree.compile registry t ()).result = .ok p)
    (context : Context) : p.eval context = Tree.holds registry context t :=
  ((Tree.makes_compile registry t).ok p h).2 context

/-- **With the same operators, the predicate that compiling comes to is that of a tree written alike.** -/
theorem Checks.ensures_compile_madeOf (ht : source t) :
    Act.Ensures (Remembers registry (MadeOf registry source)) (Tree.Compiled registry source t)
      (compile t) :=
  (ensures_compile fun _ hunshadowed hp => ⟨t, ht, hunshadowed, rfl, hp⟩).mono fun _ h =>
    h.compiled ht

end PolicyDecision
