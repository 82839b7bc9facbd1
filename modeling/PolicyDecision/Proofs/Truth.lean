import Mathlib.Data.List.Forall2
import PolicyDecision.Proofs.Meaning

/-!
# What a tree comes to, whatever the order

Suppose that each leaf of a tree is asked by itself and may fail to answer. With the strong Kleene
connectives these answers make a truth value of the tree (`Tree.truth`), which may be missing too: a
conjunction is false if any part is, true if all parts are, and unknown otherwise. It does not depend
on the order of the parts, and neither do the leaves of the tree, up to order (`Tree.leaves`).

Two trees are alike (`Tree.Alike`) if they have the same truth value for all answers and the same
leaves. Siblings may change places and `and` lists may be opened up without making a difference.
-/

namespace PolicyDecision

/-! ### Kleene connectives -/

namespace Kleene

/-- The conjunction of two answers that may be missing. -/
def and : Option Bool → Option Bool → Option Bool
  | some true, b => b
  | some false, _ => some false
  | none, some false => some false
  | none, _ => none

/-- The disjunction of two answers that may be missing. -/
def or : Option Bool → Option Bool → Option Bool
  | some true, _ => some true
  | some false, b => b
  | none, some true => some true
  | none, _ => none

/-- The conjunction of a list of answers. -/
def all (answers : List (Option Bool)) : Option Bool :=
  answers.foldr and (some true)

variable {a b : Option Bool} {answers answers' : List (Option Bool)}

@[simp] theorem and_eq_true_iff : and a b = some true ↔ a = some true ∧ b = some true := by
  rcases a with _ | _ | _ <;> rcases b with _ | _ | _ <;> decide

@[simp] theorem and_eq_false_iff : and a b = some false ↔ a = some false ∨ b = some false := by
  rcases a with _ | _ | _ <;> rcases b with _ | _ | _ <;> decide

@[simp] theorem all_nil : all [] = some true := rfl

@[simp] theorem all_cons (a : Option Bool) (answers : List (Option Bool)) :
    all (a :: answers) = and a (all answers) := rfl

theorem all_eq_true_iff : all answers = some true ↔ ∀ a ∈ answers, a = some true := by
  induction answers with
  | nil => simp
  | cons a answers ih => simp [ih]

theorem all_eq_false_iff : all answers = some false ↔ some false ∈ answers := by
  induction answers with
  | nil => simp
  | cons a answers ih =>
    rw [all_cons, and_eq_false_iff, ih, List.mem_cons, eq_comm]

/-- Answers are the same if they are true alike and false alike. -/
theorem ext (htrue : a = some true ↔ b = some true) (hfalse : a = some false ↔ b = some false) :
    a = b := by
  rcases a with _ | _ | _ <;> rcases b with _ | _ | _ <;> simp_all

/-- A conjunction does not depend on the order of its parts. -/
theorem all_perm (h : answers.Perm answers') : all answers = all answers' := by
  apply ext
  · simp only [all_eq_true_iff, h.mem_iff]
  · simp only [all_eq_false_iff, h.mem_iff]

theorem all_append (answers answers' : List (Option Bool)) :
    all (answers ++ answers') = and (all answers) (all answers') := by
  apply ext
  · simp only [all_eq_true_iff, and_eq_true_iff, List.forall_mem_append]
  · simp only [all_eq_false_iff, and_eq_false_iff, List.mem_append]

@[simp] theorem and_true (a : Option Bool) : and a (some true) = a := by
  rcases a with _ | _ | _ <;> rfl

end Kleene

/-! ### Truth values -/

/-- What each leaf answers when it is asked by itself; `none` where it fails. -/
abbrev Valuation := Leaf → Option Bool

/-- The truth value of a restrictor on the requester, who must be found first. -/
def Restrictor.truth (v : Valuation) : Restrictor → Option Bool
  | .wildcard => some true
  | .noOwner => (v .requester).bind fun _ => some false
  | .all clauses => (v .requester).bind fun _ => Kleene.all (clauses.map fun c => v (.clause c))

mutual

def Condition.truth (v : Valuation) : Condition → Option Bool
  | .requester restrictor => restrictor.truth v
  | .resourceId id => v (.resourceId id)
  | .access allowed => v (.access allowed)
  | .not tree => (Tree.truth v tree).map (!·)
  | .nor trees => (Tree.truthOfAny v trees).map (!·)
  | .or trees => Tree.truthOfAny v trees
  | .and trees => Tree.truthOfAll v trees
  | .custom name arg => v (.custom name arg)

/-- The truth value of a tree. -/
def Tree.truth (v : Valuation) : List Condition → Option Bool
  | [] => some true
  | condition :: conditions => Kleene.and (condition.truth v) (Tree.truth v conditions)

/-- The truth value of the conjunction of a list of trees. -/
def Tree.truthOfAll (v : Valuation) : List (List Condition) → Option Bool
  | [] => some true
  | tree :: trees => Kleene.and (Tree.truth v tree) (Tree.truthOfAll v trees)

/-- The truth value of the disjunction of a list of trees. -/
def Tree.truthOfAny (v : Valuation) : List (List Condition) → Option Bool
  | [] => some false
  | tree :: trees => Kleene.or (Tree.truth v tree) (Tree.truthOfAny v trees)

end

theorem Tree.truth_eq_all (v : Valuation) (tree : Tree) :
    Tree.truth v tree = Kleene.all (tree.map (Condition.truth v)) := by
  induction tree with
  | nil => rw [Tree.truth]; rfl
  | cons condition conditions ih => rw [Tree.truth, ih]; rfl

/-! ### Leaves -/

/-- The leaves that a restrictor on the requester asks; a wildcard asks none. -/
def Restrictor.leaves : Restrictor → List Leaf
  | .wildcard => []
  | .noOwner => [.requester]
  | .all clauses => .requester :: clauses.map .clause

mutual

def Condition.leaves : Condition → List Leaf
  | .requester restrictor => restrictor.leaves
  | .resourceId id => [.resourceId id]
  | .access allowed => [.access allowed]
  | .not tree => Tree.leaves tree
  | .nor trees | .or trees | .and trees => Tree.leavesOfEach trees
  | .custom name arg => [.custom name arg]

/-- The leaves of a tree at any depth. -/
def Tree.leaves : List Condition → List Leaf
  | [] => []
  | condition :: conditions => condition.leaves ++ Tree.leaves conditions

/-- The leaves of a list of trees. -/
def Tree.leavesOfEach : List (List Condition) → List Leaf
  | [] => []
  | tree :: trees => Tree.leaves tree ++ Tree.leavesOfEach trees

end

theorem Tree.leaves_eq_flatMap (tree : Tree) : Tree.leaves tree = tree.flatMap Condition.leaves := by
  induction tree with
  | nil => rw [Tree.leaves]; rfl
  | cons condition conditions ih => rw [Tree.leaves, ih]; rfl

/-- The custom key that a leaf stands for. -/
def Leaf.customKey? : Leaf → Option CustomKey
  | .clause (.custom name arg) => some (.clause name arg)
  | .custom name arg => some (.condition name arg)
  | _ => none

theorem Restrictor.customKeys_eq (restrictor : Restrictor) :
    restrictor.customKeys = restrictor.leaves.filterMap Leaf.customKey? := by
  cases restrictor with
  | wildcard => rfl
  | noOwner => rfl
  | all clauses =>
    rw [Restrictor.customKeys, Restrictor.leaves, List.filterMap_cons_none rfl]
    induction clauses with
    | nil => rfl
    | cons clause clauses ih =>
      rw [List.flatMap_cons, List.map_cons, List.filterMap_cons, ih]
      cases clause <;> rfl

mutual

theorem Condition.customKeys_eq : (condition : Condition) →
    condition.customKeys = condition.leaves.filterMap Leaf.customKey?
  | .requester restrictor => by
    rw [Condition.customKeys, Condition.leaves, Restrictor.customKeys_eq]
  | .resourceId id => by rw [Condition.customKeys, Condition.leaves]; rfl
  | .access allowed => by rw [Condition.customKeys, Condition.leaves]; rfl
  | .not tree => by rw [Condition.customKeys, Condition.leaves, Tree.customKeys_eq tree]
  | .nor trees => by rw [Condition.customKeys, Condition.leaves, Tree.customKeysOfEach_eq trees]
  | .or trees => by rw [Condition.customKeys, Condition.leaves, Tree.customKeysOfEach_eq trees]
  | .and trees => by rw [Condition.customKeys, Condition.leaves, Tree.customKeysOfEach_eq trees]
  | .custom name arg => by rw [Condition.customKeys, Condition.leaves]; rfl

/-- The custom keys of a tree are those of its leaves. -/
theorem Tree.customKeys_eq : (tree : Tree) →
    Tree.customKeys tree = (Tree.leaves tree).filterMap Leaf.customKey?
  | [] => by rw [Tree.customKeys, Tree.leaves]; rfl
  | condition :: conditions => by
    rw [Tree.customKeys, Tree.leaves, List.filterMap_append, Condition.customKeys_eq condition,
      Tree.customKeys_eq conditions]

theorem Tree.customKeysOfEach_eq : (trees : List Tree) →
    Tree.customKeysOfEach trees = (Tree.leavesOfEach trees).filterMap Leaf.customKey?
  | [] => by rw [Tree.customKeysOfEach, Tree.leavesOfEach]; rfl
  | tree :: trees => by
    rw [Tree.customKeysOfEach, Tree.leavesOfEach, List.filterMap_append, Tree.customKeys_eq tree,
      Tree.customKeysOfEach_eq trees]

end

/-! ### Trees that are alike -/

/-- The same truth value whatever the leaves answer, and the same leaves up to order. -/
structure Tree.Alike (t u : Tree) : Prop where
  truth : ∀ v, Tree.truth v t = Tree.truth v u
  leaves : (Tree.leaves t).Perm (Tree.leaves u)

/-- Two conditions are alike if they are alike as trees. -/
abbrev Condition.Alike (c d : Condition) : Prop :=
  Tree.Alike [c] [d]

namespace Tree.Alike

variable {t u w : Tree} {c d : Condition}

theorem refl (t : Tree) : Tree.Alike t t :=
  ⟨fun _ => rfl, .refl _⟩

theorem symm (h : Tree.Alike t u) : Tree.Alike u t :=
  ⟨fun v => (h.truth v).symm, h.leaves.symm⟩

theorem trans (h : Tree.Alike t u) (h' : Tree.Alike u w) : Tree.Alike t w :=
  ⟨fun v => (h.truth v).trans (h'.truth v), h.leaves.trans h'.leaves⟩

/-- Siblings may change places. -/
theorem of_perm (h : t.Perm u) : Tree.Alike t u where
  truth v := by
    rw [Tree.truth_eq_all, Tree.truth_eq_all, Kleene.all_perm (h.map _)]
  leaves := by
    rw [Tree.leaves_eq_flatMap, Tree.leaves_eq_flatMap]
    exact h.flatMap_right _

theorem append {t' u' : Tree} (h : Tree.Alike t u) (h' : Tree.Alike t' u') :
    Tree.Alike (t ++ t') (u ++ u') where
  truth v := by
    have := h.truth v
    have := h'.truth v
    simp_all only [Tree.truth_eq_all, List.map_append, Kleene.all_append]
  leaves := by
    have := h.leaves
    have := h'.leaves
    simp_all only [Tree.leaves_eq_flatMap, List.flatMap_append]
    exact .append ‹_› ‹_›

theorem cons (h : Condition.Alike c d) (h' : Tree.Alike t u) : Tree.Alike (c :: t) (d :: u) :=
  append h h'

/-- Two conditions that have the same truth value and the same leaves. -/
theorem of_condition (htruth : ∀ v, c.truth v = d.truth v) (hleaves : c.leaves.Perm d.leaves) :
    Condition.Alike c d where
  truth v := by
    simp only [Tree.truth, htruth]
  leaves := by
    simpa only [Tree.leaves, List.append_nil] using hleaves

/-- The conditions of the trees of an `and` may stand in its place. -/
theorem and_singleton (trees : List Tree) : Tree.Alike [.and trees] trees.flatten where
  truth v := by
    induction trees with
    | nil => simp [Tree.truth, Condition.truth, Tree.truthOfAll]
    | cons tree trees ih =>
      simp only [Tree.truth, Condition.truth, Kleene.and_true, Tree.truthOfAll, List.flatten_cons,
        Tree.truth_eq_all v (_ ++ _), List.map_append, Kleene.all_append] at ih ⊢
      rw [ih, Tree.truth_eq_all, Tree.truth_eq_all]
  leaves := by
    simp only [Tree.leaves, Condition.leaves, List.append_nil]
    induction trees with
    | nil => rw [Tree.leavesOfEach]; exact .nil
    | cons tree trees ih =>
      rw [Tree.leavesOfEach, List.flatten_cons, Tree.leaves_eq_flatMap (_ ++ _),
        List.flatMap_append, ← Tree.leaves_eq_flatMap, ← Tree.leaves_eq_flatMap]
      exact ih.append_left _

/-- Conditions among the trees of an `and` may stand beside it. -/
theorem and_append_singles (trees : List Tree) (conditions : List Condition) :
    Tree.Alike [.and (trees ++ conditions.map fun c => [c])] (trees.flatten ++ conditions) := by
  have hopen := and_singleton (trees ++ conditions.map fun c => [c])
  rwa [List.flatten_append, ← List.flatMap_def, List.flatMap_singleton'] at hopen

end Tree.Alike

/-- The trees of one list are like those of another, one by one. -/
abbrev Tree.EachAlike (ts us : List Tree) : Prop :=
  List.Forall₂ Tree.Alike ts us

namespace Tree.EachAlike

variable {ts us : List Tree}

theorem truthOfAll (h : Tree.EachAlike ts us) (v : Valuation) :
    Tree.truthOfAll v ts = Tree.truthOfAll v us := by
  induction h with
  | nil => rfl
  | cons h _ ih => rw [Tree.truthOfAll, Tree.truthOfAll, h.truth, ih]

theorem truthOfAny (h : Tree.EachAlike ts us) (v : Valuation) :
    Tree.truthOfAny v ts = Tree.truthOfAny v us := by
  induction h with
  | nil => rfl
  | cons h _ ih => rw [Tree.truthOfAny, Tree.truthOfAny, h.truth, ih]

theorem leavesOfEach (h : Tree.EachAlike ts us) :
    (Tree.leavesOfEach ts).Perm (Tree.leavesOfEach us) := by
  induction h with
  | nil => exact .refl _
  | cons h _ ih =>
    rw [Tree.leavesOfEach, Tree.leavesOfEach]
    exact h.leaves.append ih

end Tree.EachAlike
end PolicyDecision
