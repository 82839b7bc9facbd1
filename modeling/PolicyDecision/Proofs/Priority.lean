import PolicyDecision.Relevance

/-!
# The order of priority

Sorting by priority puts the highest priority first and is stable: policies of one priority keep
their order (`Policy.filter_byPriority`). In terms of two policies, the one that comes first has
the higher priority, or they have the same and it came first before (`Policy.Precedes`).
-/

namespace PolicyDecision.Policy

variable {policies : List Policy}

/-- `a` is asked before `b`: its priority is higher, or they are equal and `a` stands before `b`
in the store. -/
def Precedes (store : List Policy) (a b : Policy) : Prop :=
  b.priority < a.priority ∨ (b.priority = a.priority ∧ [a, b].Sublist store)

theorem perm_byPriority (policies : List Policy) : (byPriority policies).Perm policies :=
  List.mergeSort_perm policies _

@[simp] theorem byPriority_singleton (policy : Policy) : byPriority [policy] = [policy] :=
  List.mergeSort_singleton policy

@[simp] theorem mem_byPriority {policy : Policy} :
    policy ∈ byPriority policies ↔ policy ∈ policies :=
  (perm_byPriority policies).mem_iff

theorem priority_trans (a b c : Policy) (hab : decide (b.priority ≤ a.priority) = true)
    (hbc : decide (c.priority ≤ b.priority) = true) : decide (c.priority ≤ a.priority) = true := by
  rw [decide_eq_true_iff] at *
  exact Int.le_trans hbc hab

theorem priority_total (a b : Policy) :
    (decide (b.priority ≤ a.priority) || decide (a.priority ≤ b.priority)) = true := by
  rw [Bool.or_eq_true, decide_eq_true_iff, decide_eq_true_iff]
  exact Int.le_total b.priority a.priority

theorem pairwise_byPriority (policies : List Policy) :
    (byPriority policies).Pairwise fun a b => decide (b.priority ≤ a.priority) = true :=
  List.pairwise_mergeSort priority_trans priority_total policies

/-- Sorting again changes nothing. -/
@[simp] theorem byPriority_byPriority (policies : List Policy) :
    byPriority (byPriority policies) = byPriority policies :=
  List.mergeSort_of_pairwise (pairwise_byPriority policies)

/-- **Sorting is stable**: policies of one priority keep their order. -/
theorem filter_byPriority (policies : List Policy) (priority : Int) :
    (byPriority policies).filter (fun p => p.priority = priority) =
      policies.filter fun p => p.priority = priority := by
  -- The policies of one priority are sorted as they are, so sorting cannot move them; the lengths
  -- agree because it loses none.
  have hequal : (policies.filter fun p => p.priority = priority).Pairwise fun a b =>
      decide (b.priority ≤ a.priority) = true := by
    apply List.pairwise_of_forall_mem_list
    intro a ha b hb
    have ha : a.priority = priority := by simpa using (List.mem_filter.1 ha).2
    have hb : b.priority = priority := by simpa using (List.mem_filter.1 hb).2
    simp [ha, hb]
  have hsub : (policies.filter fun p => p.priority = priority).Sublist (byPriority policies) :=
    List.sublist_mergeSort priority_trans priority_total hequal List.filter_sublist
  have hfilter := hsub.filter fun p => p.priority = priority
  rw [List.filter_filter] at hfilter
  simp only [Bool.and_self] at hfilter
  refine (hfilter.eq_of_length ?_).symm
  exact ((perm_byPriority policies).filter _).length_eq.symm

/-- Of two policies of a sorted list, the first is asked before the second. -/
theorem precedes_byPriority {store : List Policy} (h : policies.Sublist store) :
    (byPriority policies).Pairwise (Precedes store) := by
  apply List.pairwise_iff_forall_sublist.2
  intro a b hab
  have hle : b.priority ≤ a.priority := by
    simpa using List.pairwise_iff_forall_sublist.1 (pairwise_byPriority policies) hab
  rcases Int.lt_or_eq_of_le hle with hlt | heq
  · exact .inl hlt
  · refine .inr ⟨heq, List.Sublist.trans ?_ h⟩
    have hfilter := hab.filter fun p => p.priority = a.priority
    rw [filter_byPriority] at hfilter
    simpa [heq] using hfilter.trans List.filter_sublist

end PolicyDecision.Policy
