import Flowchart.Proofs.Ranking.Extremes
import Flowchart.Proofs.Ranking.TotalLength

/-!
# The first tree of a component

The network simplex first finds a spanning tree of tight links. The loop that grows this tree has no
counter: it goes on until all vertices are members or no link leaves the tree. `Simplex.Rounds` is
that loop without any bound. Its outcome and the number of its rounds are determined by where it
starts, `Rounds.unique`, and on a component of an acyclic graph with feasible ranks it ends after at
most one round for each vertex, `feasibleTree_rounds`.
-/

namespace Flowchart.Simplex

variable {α : Type} {s s' t : Simplex α} {members : Array Bool}

instance : Std.Symm s.TreeLinked := ⟨fun _ _ ⟨l, hl, hj⟩ => ⟨l, hl, hj.symm⟩⟩

/-- In a spanning tree every vertex can be reached from every other one. -/
theorem Spanning.reaches (h : s.Spanning) {u v : Nat} (hu : u < s.size) (hv : v < s.size) :
    Relation.ReflTransGen s.TreeLinked u v := by
  have hback : Relation.ReflTransGen s.TreeLinked u 0 :=
    Std.Symm.symm 0 u (h.connected u hu)
  exact hback.trans (h.connected v hv)

/-- What is taken in from a stack is determined by the stack. -/
theorem LookedAt.unique {start : Simplex α × Array Bool × List Nat}
    {result result' : Simplex α × Array Bool} (h : LookedAt start result)
    (h' : LookedAt start result') : result = result' := by
  induction h with
  | done => cases h'; rfl
  | next _ ih =>
    cases h' with
    | next h' => exact ih h'

/-- **The growing of a tree is determined** by where it starts, and so is the number of its
rounds. -/
theorem Rounds.unique {m n : Nat} (h : Rounds m s members s') (h' : Rounds n s members t) :
    m = n ∧ s' = t := by
  induction h generalizing n with
  | full hlook hfull =>
    cases h' with
    | full hlook' =>
      obtain ⟨rfl, -⟩ := Prod.mk.inj (hlook.unique hlook')
      exact ⟨rfl, rfl⟩
    | cutOff hlook' hfull' | shifted hlook' hfull' =>
      obtain ⟨-, rfl⟩ := Prod.mk.inj (hlook.unique hlook')
      exact absurd hfull hfull'
  | cutOff hlook hfull hl =>
    cases h' with
    | full hlook' hfull' =>
      obtain ⟨-, rfl⟩ := Prod.mk.inj (hlook.unique hlook')
      exact absurd hfull' hfull
    | cutOff hlook' =>
      obtain ⟨rfl, -⟩ := Prod.mk.inj (hlook.unique hlook')
      exact ⟨rfl, rfl⟩
    | shifted hlook' _ hl' =>
      obtain ⟨rfl, rfl⟩ := Prod.mk.inj (hlook.unique hlook')
      rw [hl] at hl'
      cases hl'
  | shifted hlook hfull hl _ ih =>
    cases h' with
    | full hlook' hfull' =>
      obtain ⟨-, rfl⟩ := Prod.mk.inj (hlook.unique hlook')
      exact absurd hfull' hfull
    | cutOff hlook' _ hl' =>
      obtain ⟨rfl, rfl⟩ := Prod.mk.inj (hlook.unique hlook')
      rw [hl] at hl'
      cases hl'
    | shifted hlook' _ hl' hrest' =>
      obtain ⟨rfl, rfl⟩ := Prod.mk.inj (hlook.unique hlook')
      obtain rfl := Option.some.inj (hl.symm.trans hl')
      obtain ⟨rfl, hend⟩ := ih hrest'
      exact ⟨rfl, hend⟩

end Flowchart.Simplex

namespace Flowchart.LayerGraph

variable {α : Type} [Scalar α] {g : LayerGraph α}

/-- **The first tree grows in at most one round for each vertex.** Let `members` be a component of
at least two vertices of an acyclic graph, and let the ranks give the arcs between them their least
lengths. The loop from the first member, on the links that parallel arcs are merged to, ends, and in
one way only; it takes at most as many rounds as there are members. In the end the links are the
same, there is one tree link less than there are members, these connect all of them and have slack
zero, and no link has a negative slack. -/
theorem feasibleTree_rounds (hc : g.Consistent) (hg : g.Acyclic) :
    ∀ members ∈ g.components, 2 ≤ members.length →
      (∀ arc ∈ g.arcsAmong members, g.rank arc.source + arc.minLength ≤ g.rank arc.target) →
      ∃ rounds ≤ members.length, ∃ tree : Simplex α,
        tree = (g.componentStart members).feasibleTree ∧
        (∀ n t, Simplex.Rounds n (g.componentStart members)
          (g.componentStart members).firstMember t ↔ n = rounds ∧ t = tree) ∧
        tree.links = g.componentLinks members ∧
        tree.treeLinks.card = members.length - 1 ∧
        (∀ u < members.length, ∀ v < members.length, Relation.ReflTransGen tree.TreeLinked u v) ∧
        (∀ l, tree.isTree l = true → tree.slack l = 0) ∧
        ∀ l < tree.links.size, 0 ≤ tree.slack l := by
  intro members hm h2 hr
  have hcomp := (components_spec hc).1 members hm
  have hsize := size_componentStart g members
  have hstart : (g.componentStart members).Startable := by
    refine hcomp.startable_of_feasible hg (hcomp.start_feasible fun a arc ha hact hs => ?_) (by omega)
    exact hr arc (mem_arcsAmong.mpr ⟨mem_activeArcs.mpr ⟨a, ha, hact⟩, hs⟩)
  obtain ⟨⟨hsame, hfeasible, htight, hspanning⟩, rounds, hle, hrounds⟩ :=
    Simplex.feasibleTree_grounded hstart.wired hstart.pos hstart.connected hstart.feasible
      hstart.no_tree
  have hend : (g.componentStart members).feasibleTree.size = members.length :=
    hsame.size.trans hsize
  refine ⟨rounds, hsize ▸ hle, _, rfl, fun n t => ⟨fun h => h.unique hrounds, ?_⟩, hsame.links, ?_,
    fun u hu v hv => hspanning.reaches (hend ▸ hu) (hend ▸ hv), htight, hfeasible⟩
  · rintro ⟨rfl, rfl⟩
    exact hrounds
  · have := hspanning.count
    omega

/-- The two ways to one vertex are a component. The tree first takes in the long way; the one link
to the start of the short one, which stands for two arcs, has to be made tight by a shift. -/
theorem feasibleTree_rounds_feeder : feeder.longestPath.Consistent ∧ feeder.longestPath.Acyclic ∧
    [0, 1, 2, 3] ∈ feeder.longestPath.components ∧
    ∃ rounds ≤ 4, ∃ tree : Simplex Float32,
      tree = (feeder.longestPath.componentStart [0, 1, 2, 3]).feasibleTree ∧
      Simplex.Rounds rounds (feeder.longestPath.componentStart [0, 1, 2, 3])
        (feeder.longestPath.componentStart [0, 1, 2, 3]).firstMember tree ∧
      tree.treeLinks.card = 3 ∧ tree.rank = #[-1, 0, 1, 0] := by
  have hkeeps := keeps_longestPath (f := Vertex.id) (fun _ _ => rfl) feeder
  have hfresh := feeder_built.fresh
  have hback : feeder.backArcs = [] := by decide +kernel
  have hg : feeder.Acyclic := by
    have h := hfresh.consistent.acyclic_foldl_backArcs hfresh.loopless
    rwa [hback] at h
  have hc' := hkeeps.consistent hfresh.consistent
  have hg' := hkeeps.acyclic hg
  have hm : [0, 1, 2, 3] ∈ feeder.longestPath.components := by decide +kernel
  obtain ⟨rounds, hle, tree, rfl, hrounds, -, hcard, -⟩ :=
    feasibleTree_rounds hc' hg' [0, 1, 2, 3] hm (by decide) (by decide +kernel)
  exact ⟨hc', hg', hm, rounds, hle, _, rfl, (hrounds rounds _).mpr ⟨rfl, rfl⟩, hcard,
    by decide +kernel⟩

end Flowchart.LayerGraph
