import Flowchart.Proofs.Boxes.Settling
import Flowchart.Proofs.Route.Runs

/-!
# Routes around boxes

Detours are put into a route one at a time, each into the first run that passes through the box of
an obstacle. They stop when no run does, or when as many were made as may be. A detour adds corners
to the route and takes none away.

* When the search ends before its detours are used up, no run passes through the box of an obstacle.
* Detours keep all runs clean for a box if they have no corner in it; and those around boxes that
  surround it do so anyway, since they keep out of what they lead around.

So the inside of a box is free in the end if no run ended in it at first and no other detour has a
corner in it, `avoidObstacles_keepsOut`. Both are needed, since runs that end in a box are not led
around it, and a detour is made without regard to the boxes that come later.
-/

namespace Flowchart

variable {a b : Point ℚ} {r s : Rect ℚ} {boxes : List (Rect ℚ)} {points : List (Point ℚ)}

/-! ## Putting detours in -/

/-- A detour: the box it leads around, and its corners. -/
structure Detour where
  /-- the box -/
  box : Rect ℚ
  /-- the corners put into the run -/
  corners : List (Point ℚ)
  deriving DecidableEq

/-- The detour around the first box that a run passes through. -/
def firstAround? (boxes : List (Rect ℚ)) (a b : Point ℚ) : Option Detour :=
  boxes.findSome? fun r => (detour? a b r).map (Detour.mk r)

/-- The detour that is put in first. -/
def firstDetour? (boxes : List (Rect ℚ)) : List (Point ℚ) → Option Detour
  | a :: b :: rest => (firstAround? boxes a b).or (firstDetour? boxes (b :: rest))
  | _ => none

/-- The detours that are put in one after the other, at most `left` of them. -/
def detoursMade (boxes : List (Rect ℚ)) : (left : Nat) → List (Point ℚ) → List Detour
  | 0, _ => []
  | left + 1, points =>
    match firstDetour? boxes points, detourOnce? boxes points with
    | some d, some next => d :: detoursMade boxes left next
    | _, _ => []

/-- No run between these corners is led around a box. -/
def Quiet (boxes : List (Rect ℚ)) (a b : Point ℚ) : Prop := ∀ r ∈ boxes, detour? a b r = none

theorem firstAround?_eq_none (h : firstAround? boxes a b = none) :
    Quiet boxes a b ∧ boxes.findSome? (detour? a b) = none := by
  rw [firstAround?, List.findSome?_eq_none_iff] at h
  have hquiet : Quiet boxes a b := fun r hr => Option.map_eq_none_iff.mp (h r hr)
  exact ⟨hquiet, List.findSome?_eq_none_iff.mpr hquiet⟩

theorem firstAround?_eq_some {d : Detour} (h : firstAround? boxes a b = some d) :
    d.box ∈ boxes ∧ detour? a b d.box = some d.corners ∧
      boxes.findSome? (detour? a b) = some d.corners := by
  obtain ⟨before, r, after, rfl, hr, hbefore⟩ := List.findSome?_eq_some_iff.mp h
  obtain ⟨corners, hcorners, rfl⟩ := Option.map_eq_some_iff.mp hr
  refine ⟨by simp, hcorners, List.findSome?_eq_some_iff.mpr ⟨before, r, after, rfl, hcorners, ?_⟩⟩
  exact fun s hs => Option.map_eq_none_iff.mp (hbefore s hs)

/-- What one search does: it finds nothing to lead around, or it puts a detour into a run. -/
theorem detourOnce?_cases (boxes : List (Rect ℚ)) (points : List (Point ℚ)) :
    (firstDetour? boxes points = none ∧ detourOnce? boxes points = none ∧
      points.IsChain (Quiet boxes)) ∨
    ∃ d front a b rest, firstDetour? boxes points = some d ∧ d.box ∈ boxes ∧
      detour? a b d.box = some d.corners ∧ points = front ++ a :: b :: rest ∧
      detourOnce? boxes points = some (front ++ a :: (d.corners ++ b :: rest)) := by
  induction points with
  | nil => exact .inl ⟨rfl, rfl, .nil⟩
  | cons a points ih =>
    cases points with
    | nil => exact .inl ⟨rfl, rfl, .singleton a⟩
    | cons b rest =>
      rw [firstDetour?, detourOnce?]
      cases hfirst : firstAround? boxes a b with
      | some d =>
        obtain ⟨hmem, hcorners, hsome⟩ := firstAround?_eq_some hfirst
        rw [hsome]
        exact .inr ⟨d, [], a, b, rest, rfl, hmem, hcorners, rfl, rfl⟩
      | none =>
        obtain ⟨hquiet, hnone⟩ := firstAround?_eq_none hfirst
        rw [hnone, Option.none_or]
        obtain ⟨hd, hnext, hrest⟩ | ⟨d, front, a', b', rest', hd, hmem, hcorners, heq, hnext⟩ := ih
        · exact .inl ⟨hd, by rw [hnext, Option.map_none], hrest.cons_cons hquiet⟩
        · refine .inr ⟨d, a :: front, a', b', rest', hd, hmem, hcorners, by rw [heq]; rfl, ?_⟩
          rw [hnext, Option.map_some]
          rfl

/-- What every detour preserves holds in the end, and then no run is led around a box if fewer
detours were made than might have been. -/
theorem detourLoop_induct {P : List (Point ℚ) → Prop} (left : Nat) (h : P points)
    (hstep : ∀ d ∈ detoursMade boxes left points, ∀ front a b rest, d.box ∈ boxes →
      detour? a b d.box = some d.corners → P (front ++ a :: b :: rest) →
      P (front ++ a :: (d.corners ++ b :: rest))) :
    P (detourLoop boxes left points) ∧ ((detoursMade boxes left points).length < left →
      (detourLoop boxes left points).IsChain (Quiet boxes)) := by
  induction left generalizing points with
  | zero => exact ⟨h, fun hlt => absurd hlt (Nat.not_lt_zero _)⟩
  | succ left ih =>
    rw [detourLoop, detoursMade] at *
    obtain ⟨hd, hnext, hquiet⟩ | ⟨d, front, a, b, rest, hd, hmem, hcorners, rfl, hnext⟩ :=
      detourOnce?_cases boxes points
    · simp only [hd, hnext]
      exact ⟨h, fun _ => hquiet⟩
    · simp only [hd, hnext] at hstep ⊢
      rw [List.length_cons, Nat.add_lt_add_iff_right]
      exact ih (hstep d List.mem_cons_self front a b rest hmem hcorners h)
        fun e he => hstep e (List.mem_cons_of_mem d he)

/-! ## Corners added -/

section

variable {α : Type} [Scalar α]

/-- A detour adds corners between two others, so that the old corners stay in their order and the
route keeps its ends. -/
theorem detourOnce?_extends {boxes : List (Rect α)} {points next : List (Point α)}
    (h : detourOnce? boxes points = some next) :
    points.Sublist next ∧ next.head? = points.head? ∧ next.getLast? = points.getLast? := by
  induction points generalizing next with
  | nil => cases h
  | cons a points ih =>
    cases points with
    | nil => cases h
    | cons b rest =>
      rw [detourOnce?] at h
      split at h
      · obtain rfl := Option.some.inj h
        refine ⟨(List.sublist_append_right _ (b :: rest)).cons_cons a, rfl, ?_⟩
        simp [List.getLast?_cons, List.getLast?_append]
      · obtain ⟨later, hlater, rfl⟩ := Option.map_eq_some_iff.mp h
        obtain ⟨hsub, -, hlast⟩ := ih hlater
        exact ⟨hsub.cons_cons a, rfl, by rw [List.getLast?_cons, hlast, ← List.getLast?_cons]⟩

/-- Detours add corners, and none before the first corner or after the last one. -/
theorem detourLoop_sublist (boxes : List (Rect α)) (left : Nat) (points : List (Point α)) :
    points.Sublist (detourLoop boxes left points) ∧
      (detourLoop boxes left points).head? = points.head? ∧
      (detourLoop boxes left points).getLast? = points.getLast? := by
  induction left generalizing points with
  | zero => exact ⟨.refl points, rfl, rfl⟩
  | succ left ih =>
    rw [detourLoop]
    cases h : detourOnce? boxes points with
    | none => exact ⟨.refl points, rfl, rfl⟩
    | some next =>
      obtain ⟨hsub, hhead, hlast⟩ := detourOnce?_extends h
      obtain ⟨hsub', hhead', hlast'⟩ := ih next
      exact ⟨hsub.trans hsub', hhead'.trans hhead, hlast'.trans hlast⟩

end

/-! ## Obstacles -/

/-- The boxes that a connection has to go around. -/
def obstacleBoxes (options : LayoutOptions ℚ) (nodes : List (PlacedNode ℚ))
    (blocks : List (PlacedBlock ℚ)) (e : Edge) : List (Rect ℚ) :=
  ((obstacles options nodes blocks).filter (·.blocks e)).map Obstacle.box

variable {options : LayoutOptions ℚ} {nodes : List (PlacedNode ℚ)} {blocks : List (PlacedBlock ℚ)}
  {block : PlacedBlock ℚ} {e : Edge}

/-- A connection has to go around the box of a block that lists neither of its ends. -/
theorem mem_obstacleBoxes (hblock : block ∈ blocks) (hwidth : 0 < block.box.width)
    (hsource : e.source ∉ block.members) (htarget : e.target ∉ block.members) :
    block.box ∈ obstacleBoxes options nodes blocks e := by
  refine List.mem_map.mpr ⟨⟨block.box, block.members⟩, List.mem_filter.mpr ⟨?_, ?_⟩, rfl⟩
  · refine List.mem_append_right _ (List.mem_map.mpr ⟨block, List.mem_filter.mpr ⟨hblock, ?_⟩, rfl⟩)
    simpa using hwidth
  · simp [Obstacle.blocks, hsource, htarget]

theorem obstaclePad_nonneg (options : LayoutOptions ℚ) : 0 ≤ obstaclePad options := by
  rw [obstaclePad, Scalar.max_eq]
  exact le_max_of_le_right (by norm_num)

/-- The boxes to go around have sizes that are not negative. -/
theorem size_of_mem_obstacleBoxes
    (hnodes : ∀ n ∈ nodes, 0 ≤ n.box.width ∧ 0 ≤ n.box.height)
    (hblocks : ∀ b ∈ blocks, 0 ≤ b.box.height) (hr : r ∈ obstacleBoxes options nodes blocks e) :
    0 ≤ r.width ∧ 0 ≤ r.height := by
  obtain ⟨o, ho, rfl⟩ := List.mem_map.mp hr
  rcases List.mem_append.mp (List.mem_filter.mp ho).1 with ho | ho
  · obtain ⟨n, hn, rfl⟩ := List.mem_map.mp ho
    obtain ⟨hwidth, hheight⟩ := hnodes n hn
    have hpad := obstaclePad_nonneg options
    simp only [Rect.inflate, Scalar.lit_two]
    constructor <;> positivity
  · obtain ⟨b, hb, rfl⟩ := List.mem_map.mp ho
    obtain ⟨hb, hwidth⟩ := List.mem_filter.mp hb
    simp only [Scalar.lit_zero, decide_eq_true_eq] at hwidth
    exact ⟨hwidth.le, hblocks b hb⟩

/-! ## The whole search -/

/-- The detours a connection makes around the obstacles of a drawing. -/
def detoursAround (options : LayoutOptions ℚ) (nodes : List (PlacedNode ℚ))
    (blocks : List (PlacedBlock ℚ)) (e : Edge) (points : List (Point ℚ)) : List Detour :=
  detoursMade (obstacleBoxes options nodes blocks e) 32 points

/-- Detours around boxes that surround a given one, or with all corners off it, end no run in it. -/
theorem detourLoop_clean {left : Nat} (hsizes : ∀ r ∈ boxes, 0 ≤ r.width ∧ 0 ≤ r.height)
    (haligned : points.IsChain Aligned) (hclean : points.IsChain (Clean s))
    (hmade : ∀ d ∈ detoursMade boxes left points, s.Within d.box ∨ ∀ c ∈ d.corners, Off s c) :
    (detourLoop boxes left points).IsChain (Clean s) := by
  refine (detourLoop_induct (P := fun points => points.IsChain Aligned ∧ points.IsChain (Clean s))
    left ⟨haligned, hclean⟩ fun d hd front a b rest hbox hcorners h => ?_).1.2
  obtain ⟨haligned, hclean⟩ := h
  obtain ⟨hwidth, hheight⟩ := hsizes d.box hbox
  have hab : Aligned a b := (List.isChain_append_cons_cons.mp haligned).2.1
  have haround := detour?_spec hab hwidth hheight hcorners
  exact ⟨isChain_splice haligned fun _ => haround.aligned,
    isChain_splice hclean fun hc => haround.clean hc (hmade d hd)⟩

/-- **Routes go around the blocks they pass.** Whatever the obstacles, a route with detours begins
and ends as before and has all its corners in order. Let all its runs be horizontal or vertical, and
take a block that lists neither end of the connection. If fewer detours are made than might be, no
run passes through the box of the block any more. And if no run of the route ended in the box, and
no corner of a detour lies in it but of those that surround it, then no point of the route with
detours lies inside the box. -/
theorem avoidObstacles_keepsOut (options : LayoutOptions ℚ) (nodes : List (PlacedNode ℚ))
    (blocks : List (PlacedBlock ℚ)) (hnodes : ∀ n ∈ nodes, 0 ≤ n.box.width ∧ 0 ≤ n.box.height)
    (hblocks : ∀ b ∈ blocks, 0 ≤ b.box.height) (e : Edge) (points : List (Point ℚ))
    (haligned : points.IsChain Aligned) :
    let result := avoidObstacles (obstacles options nodes blocks) e points
    let made := detoursAround options nodes blocks e points
    (points.Sublist result ∧ result.head? = points.head? ∧ result.getLast? = points.getLast?) ∧
    ∀ block ∈ blocks, 0 < block.box.width → alignTolerance ≤ block.box.height →
      e.source ∉ block.members → e.target ∉ block.members → made.length < 32 →
      (result.IsChain fun a b => ∀ axis, ¬ RunsThrough block.box axis a b) ∧
      ((∀ p ∈ points.head?, block.box.contains p = false) → points.IsChain (Clean block.box) →
        (∀ d ∈ made, block.box.Within d.box ∨ ∀ c ∈ d.corners, Off block.box c) →
        ∀ p, OnRoute result p → block.box.contains p = false) := by
  intro result made
  obtain ⟨hsub, hhead, hlast⟩ :=
    detourLoop_sublist (obstacleBoxes options nodes blocks e) 32 points
  refine ⟨⟨hsub, hhead, hlast⟩, fun block hblock hwidth hheight hsource htarget hfew => ?_⟩
  have hmem : block.box ∈ obstacleBoxes options nodes blocks e :=
    mem_obstacleBoxes hblock hwidth hsource htarget
  -- the search ended before its detours were used up
  have hquiet : result.IsChain (Quiet (obstacleBoxes options nodes blocks e)) :=
    (detourLoop_induct (P := fun _ => True) 32 trivial fun _ _ _ _ _ _ _ _ _ => trivial).2 hfew
  have hpass : result.IsChain fun a b => ∀ axis, ¬ RunsThrough block.box axis a b :=
    hquiet.imp fun a b hab axis hthrough => by
      have hsome := hthrough.detour? hheight
      rw [hab block.box hmem] at hsome
      cases hsome
  refine ⟨hpass, fun hstart hclean hmade p hp => ?_⟩
  have hresult : result.IsChain (Clean block.box) :=
    detourLoop_clean (fun r hr => size_of_mem_obstacleBoxes hnodes hblocks hr) haligned hclean hmade
  exact contains_eq_false_of_onRoute (isChain_keepsOut hresult hpass)
    (fun p hp => hstart p (hhead ▸ hp)) hp

/-- A node in a block. -/
def lodger : PlacedNode ℚ := BoxState.boxedNode "x" 10 140 (some "s")

/-- The block around it. -/
def yard : PlacedBlock ℚ :=
  { BoxState.titledBlock "s" ["x"] none with box := ⟨-40, 100, 140, 100⟩ }

/-- A node below the block. -/
def neighbour : PlacedNode ℚ := BoxState.boxedNode "y" 60 220 none

/-- A connection of two other nodes. -/
def passer : Edge := { source := "a", target := "b" }

/-- A straight route past the node inside is led around the one below and then around the block. -/
theorem avoidObstacles_passer :
    avoidObstacles (obstacles .standard [lodger, neighbour] [yard]) passer
        [⟨80, 0⟩, ⟨80, 300⟩] =
      [⟨80, 0⟩, ⟨80, 100⟩, ⟨100, 100⟩, ⟨100, 200⟩, ⟨80, 200⟩, ⟨80, 845 / 4⟩, ⟨205 / 4, 845 / 4⟩,
        ⟨205 / 4, 995 / 4⟩, ⟨80, 995 / 4⟩, ⟨80, 300⟩] ∧
    ∀ p, OnRoute (avoidObstacles (obstacles .standard [lodger, neighbour] [yard]) passer
      [⟨80, 0⟩, ⟨80, 300⟩]) p → yard.box.contains p = false := by
  have haligned : List.IsChain Aligned [(⟨80, 0⟩ : Point ℚ), ⟨80, 300⟩] :=
    .cons_cons ⟨.horizontal, rfl⟩ (.singleton _)
  have hclean : List.IsChain (Clean yard.box) [(⟨80, 0⟩ : Point ℚ), ⟨80, 300⟩] :=
    .cons_cons (.inr ⟨.vertical, rfl, by decide +kernel, by decide +kernel, by decide +kernel,
      by decide +kernel⟩) (.singleton _)
  have hmade : detoursAround .standard [lodger, neighbour] [yard] passer
      [⟨80, 0⟩, ⟨80, 300⟩] =
        [⟨⟨205 / 4, 845 / 4, 115 / 2, 75 / 2⟩, [⟨80, 845 / 4⟩, ⟨205 / 4, 845 / 4⟩,
          ⟨205 / 4, 995 / 4⟩, ⟨80, 995 / 4⟩]⟩,
        ⟨yard.box, [⟨80, 100⟩, ⟨100, 100⟩, ⟨100, 200⟩, ⟨80, 200⟩]⟩] := by decide +kernel
  obtain ⟨-, hkeeps⟩ := avoidObstacles_keepsOut .standard [lodger, neighbour] [yard]
    (by decide +kernel) (by decide +kernel) passer [⟨80, 0⟩, ⟨80, 300⟩] haligned
  obtain ⟨-, hout⟩ := hkeeps yard (List.mem_singleton_self _) (by decide +kernel)
    (by decide +kernel) (by decide +kernel) (by decide +kernel) (by rw [hmade]; decide)
  refine ⟨by decide +kernel, hout (by decide +kernel) hclean fun d hd => ?_⟩
  rw [hmade] at hd
  rcases List.mem_pair.mp hd with rfl | rfl
  · have hbelow : ∀ c ∈ [(⟨80, 845 / 4⟩ : Point ℚ), ⟨205 / 4, 845 / 4⟩, ⟨205 / 4, 995 / 4⟩,
        ⟨80, 995 / 4⟩], yard.box.bottom < c.y := by decide +kernel
    exact .inr fun c hc => ⟨.vertical, .inr (hbelow c hc)⟩
  · exact .inl (.refl _)

/-! ## Routes through a box -/

/-- All nodes are members of the block and lie in its box. The connection has nothing to do with the
block, its route begins and ends outside of the box, and few detours are made. And yet the point is
on the route with detours and lies inside the box. -/
structure Trespass (nodes : List (PlacedNode ℚ)) (block : PlacedBlock ℚ) (e : Edge)
    (points : List (Point ℚ)) (p : Point ℚ) : Prop where
  housed : ∀ n ∈ nodes, n.id ∈ block.members ∧ n.box.Within block.box
  stranger : e.source ∉ block.members ∧ e.target ∉ block.members
  aligned : points.IsChain Aligned
  starts : ∀ q ∈ points.head?, block.box.contains q = false
  ends : ∀ q ∈ points.getLast?, block.box.contains q = false
  few : (detoursAround .standard nodes [block] e points).length < 32
  onRoute : OnRoute (avoidObstacles (obstacles .standard nodes [block]) e points) p
  inside : block.box.contains p = true

/-- A block without members and of almost no height. -/
def kerb : PlacedBlock ℚ := { BoxState.titledBlock "s" [] none with box := ⟨-40, 100, 140, 3 / 10⟩ }

theorem housed_lodger : ∀ n ∈ [lodger], n.id ∈ yard.members ∧ n.box.Within yard.box := by
  intro n hn
  obtain rfl := List.mem_singleton.mp hn
  exact ⟨by decide +kernel, by decide +kernel, by decide +kernel, by decide +kernel,
    by decide +kernel⟩

/-- A route with a corner inside the box does not pass through it from side to side. -/
theorem trespass_corner :
    Trespass [lodger] yard passer [⟨-60, 120⟩, ⟨0, 120⟩, ⟨0, 60⟩] ⟨0, 120⟩ where
  housed := housed_lodger
  stranger := by decide +kernel
  aligned := .cons_cons ⟨.vertical, rfl⟩ (.cons_cons ⟨.horizontal, rfl⟩ (.singleton _))
  starts := by decide +kernel
  ends := by decide +kernel
  few := by decide +kernel
  onRoute := .inl (by decide +kernel)
  inside := by decide +kernel

/-- Nor does a route with a corner on the outline. -/
theorem trespass_outline :
    Trespass [lodger] yard passer [⟨-40, 60⟩, ⟨-40, 120⟩, ⟨200, 120⟩] ⟨0, 120⟩ where
  housed := housed_lodger
  stranger := by decide +kernel
  aligned := .cons_cons ⟨.horizontal, rfl⟩ (.cons_cons ⟨.vertical, rfl⟩ (.singleton _))
  starts := by decide +kernel
  ends := by decide +kernel
  few := by decide +kernel
  onRoute := by
    have hkept : avoidObstacles (obstacles .standard [lodger] [yard]) passer
        [⟨-40, 60⟩, ⟨-40, 120⟩, ⟨200, 120⟩] = [⟨-40, 60⟩, ⟨-40, 120⟩, ⟨200, 120⟩] := by
      decide +kernel
    rw [hkept]
    exact .inr ⟨⟨-40, 120⟩, ⟨200, 120⟩, List.infix_cons (List.infix_refl _),
      onRun_iff.mpr (by norm_num)⟩
  inside := by decide +kernel

/-- A route that was led around a member of the block has corners inside the box. -/
theorem trespass_member :
    Trespass [lodger] yard passer [⟨30, 30⟩, ⟨30, 300⟩] ⟨30, 525 / 4⟩ where
  housed := housed_lodger
  stranger := by decide +kernel
  aligned := .cons_cons ⟨.horizontal, rfl⟩ (.singleton _)
  starts := by decide +kernel
  ends := by decide +kernel
  few := by decide +kernel
  onRoute := .inl (by decide +kernel)
  inside := by decide +kernel

/-- A vertical run that is too short to be told from a horizontal one is not led around. -/
theorem trespass_low :
    Trespass [] kerb passer [⟨0, 999 / 10⟩, ⟨0, 1003 / 10⟩] ⟨0, 1001 / 10⟩ where
  housed := fun _ hn => (List.not_mem_nil hn).elim
  stranger := by decide +kernel
  aligned := .cons_cons ⟨.horizontal, rfl⟩ (.singleton _)
  starts := by decide +kernel
  ends := by decide +kernel
  few := by decide +kernel
  onRoute := by
    have hkept : avoidObstacles (obstacles .standard [] [kerb]) passer
        [⟨0, 999 / 10⟩, ⟨0, 1003 / 10⟩] = [⟨0, 999 / 10⟩, ⟨0, 1003 / 10⟩] := by
      decide +kernel
    rw [hkept]
    exact .inr ⟨⟨0, 999 / 10⟩, ⟨0, 1003 / 10⟩, List.infix_refl _, onRun_iff.mpr (by norm_num)⟩
  inside := by decide +kernel

/-- **Not every route keeps out.** Routes that begin and end outside of a box may lie inside with a
corner or a run, for want of passing through from side to side, or of being long enough. -/
theorem avoidObstacles_trespasses :
    Trespass [lodger] yard passer [⟨-60, 120⟩, ⟨0, 120⟩, ⟨0, 60⟩] ⟨0, 120⟩ ∧
    Trespass [lodger] yard passer [⟨-40, 60⟩, ⟨-40, 120⟩, ⟨200, 120⟩] ⟨0, 120⟩ ∧
    Trespass [lodger] yard passer [⟨30, 30⟩, ⟨30, 300⟩] ⟨30, 525 / 4⟩ ∧
    Trespass [] kerb passer [⟨0, 999 / 10⟩, ⟨0, 1003 / 10⟩] ⟨0, 1001 / 10⟩ :=
  ⟨trespass_corner, trespass_outline, trespass_member, trespass_low⟩

end Flowchart
