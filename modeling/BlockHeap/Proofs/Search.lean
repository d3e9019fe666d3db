import BlockHeap.Proofs.Sound
import BlockHeap.Proofs.Walks

/-!
# Searching a chain

The openings of a chain are its free blocks that are large enough. Each policy is described by the
opening it takes: the first one, the first one in a lap from the cursor, or the first of the
tightest ones. A search neither writes to the memory nor asks the segment for anything, and its walk
ends within the steps it is given.
-/

namespace BlockHeap

/-- The piece is free and has at least `size` bytes. -/
def Piece.Fits (size : Nat) (p : Piece) : Prop :=
  p.status = .free ∧ size ≤ p.size

instance (size : Nat) (p : Piece) : Decidable (p.Fits size) :=
  inferInstanceAs (Decidable (_ ∧ _))

/-- The addresses and sizes of the free blocks of at least `size` bytes in a chain from `a` on. -/
def openings (size : Nat) : Nat → List Piece → List (Nat × Nat)
  | _, [] => []
  | a, p :: rest =>
    if p.Fits size then (a, p.size) :: openings size (a + p.size) rest
    else openings size (a + p.size) rest

section Openings

variable {size a : Nat} {p : Piece} {blocks rest : List Piece}

lemma openings_of_fits (h : p.Fits size) :
    openings size a (p :: rest) = (a, p.size) :: openings size (a + p.size) rest :=
  if_pos h

lemma openings_of_not_fits (h : ¬p.Fits size) :
    openings size a (p :: rest) = openings size (a + p.size) rest :=
  if_neg h

lemma openings_append (size a : Nat) (xs ys : List Piece) :
    openings size a (xs ++ ys) = openings size a xs ++ openings size (a + span xs) ys := by
  induction xs generalizing a with
  | nil => rfl
  | cons p xs ih =>
    rw [List.cons_append]
    by_cases hp : p.Fits size
    · rw [openings_of_fits hp, openings_of_fits hp, ih, span_cons, Nat.add_assoc, List.cons_append]
    · rw [openings_of_not_fits hp, openings_of_not_fits hp, ih, span_cons, Nat.add_assoc]

lemma mem_openings_iff {b n : Nat} :
    (b, n) ∈ openings size a blocks ↔
      size ≤ n ∧ ∃ pre post, blocks = pre ++ ⟨n, .free⟩ :: post ∧ b = a + span pre := by
  constructor
  · intro h
    induction blocks generalizing a with
    | nil => simp [openings] at h
    | cons p rest ih =>
      by_cases hp : p.Fits size
      · rw [openings_of_fits hp] at h
        rcases List.mem_cons.mp h with heq | hrest
        · obtain ⟨rfl, rfl⟩ := Prod.mk.inj heq
          refine ⟨hp.2, [], rest, ?_, rfl⟩
          rw [List.nil_append, ← hp.1]
        · obtain ⟨hle, pre, post, rfl, rfl⟩ := ih hrest
          exact ⟨hle, p :: pre, post, rfl, by simp [Nat.add_assoc]⟩
      · rw [openings_of_not_fits hp] at h
        obtain ⟨hle, pre, post, rfl, rfl⟩ := ih h
        exact ⟨hle, p :: pre, post, rfl, by simp [Nat.add_assoc]⟩
  · rintro ⟨hle, pre, post, rfl, rfl⟩
    rw [openings_append, openings_of_fits ⟨rfl, hle⟩]
    simp

lemma le_of_mem_openings {b : Nat × Nat} (h : b ∈ openings size a blocks) :
    a ≤ b.1 ∧ b.1 + b.2 ≤ a + span blocks := by
  obtain ⟨_, pre, post, rfl, hb⟩ := mem_openings_iff.mp (show (b.1, b.2) ∈ _ from h)
  simp only [span_append, span_cons]
  omega

end Openings

/-- The openings in the order in which a lap from `origin` meets them. -/
def lapped (origin : Nat) (blocks : List (Nat × Nat)) : List (Nat × Nat) :=
  blocks.filter (origin ≤ ·.1) ++ blocks.filter (·.1 < origin)

/-- The address and the slack of the tightest opening, `best` being the best one before. -/
def tightest (size : Nat) (best : Option (Nat × Nat)) (blocks : List (Nat × Nat)) :
    Option (Nat × Nat) :=
  blocks.foldl (fun best b => Arena.closer best b.1 (b.2 - size)) best

/-- A lap from a header meets the openings from there on first. -/
lemma lapped_openings {size a : Nat} {pre post : List Piece} (hpre : ∀ p ∈ pre, 0 < p.size) :
    lapped (a + span pre) (openings size a (pre ++ post)) =
      openings size (a + span pre) post ++ openings size a pre := by
  have hbefore : ∀ b ∈ openings size a pre, b.1 < a + span pre := by
    intro b hb
    obtain ⟨_, before, after, rfl, hb1⟩ := mem_openings_iff.mp (show (b.1, b.2) ∈ _ from hb)
    have hpos := hpre ⟨b.2, .free⟩ (by simp)
    simp only [span_append, span_cons] at hpos ⊢
    omega
  have hafter : ∀ b ∈ openings size (a + span pre) post, a + span pre ≤ b.1 := fun b hb =>
    (le_of_mem_openings hb).1
  unfold lapped
  rw [openings_append, List.filter_append, List.filter_append]
  have h1 : (openings size a pre).filter (a + span pre ≤ ·.1) = [] :=
    List.filter_eq_nil_iff.mpr fun b hb => by simpa using hbefore b hb
  have h2 : (openings size (a + span pre) post).filter (a + span pre ≤ ·.1) =
      openings size (a + span pre) post :=
    List.filter_eq_self.mpr fun b hb => by simpa using hafter b hb
  have h3 : (openings size a pre).filter (·.1 < a + span pre) = openings size a pre :=
    List.filter_eq_self.mpr fun b hb => by simpa using hbefore b hb
  have h4 : (openings size (a + span pre) post).filter (·.1 < a + span pre) = [] :=
    List.filter_eq_nil_iff.mpr fun b hb => by simpa using hafter b hb
  rw [h1, h2, h3, h4, List.nil_append, List.append_nil]

lemma mem_lapped (origin : Nat) {blocks : List (Nat × Nat)} {b : Nat × Nat} :
    b ∈ lapped origin blocks ↔ b ∈ blocks := by
  unfold lapped
  rw [List.mem_append, List.mem_filter, List.mem_filter, decide_eq_true_eq, decide_eq_true_eq]
  constructor
  · rintro (h | h)
    · exact h.1
    · exact h.1
  · intro h
    by_cases hle : origin ≤ b.1
    · exact Or.inl ⟨h, hle⟩
    · exact Or.inr ⟨h, by omega⟩

lemma tightest_exact (size block : Nat) (blocks : List (Nat × Nat)) :
    tightest size (some (block, 0)) blocks = some (block, 0) := by
  unfold tightest
  induction blocks with
  | nil => rfl
  | cons b blocks ih =>
    rw [List.foldl_cons]
    exact ih

/-- A block takes the place of the best one before only if it is tighter. -/
lemma Arena.closer_cases (best : Option (Nat × Nat)) (block slack : Nat) :
    (closer best block slack = some (block, slack) ∧ ∀ b ∈ best, slack < b.2) ∨
      (closer best block slack = best ∧ ∃ b ∈ best, b.2 ≤ slack) := by
  rcases best with _ | ⟨other, least⟩
  · exact Or.inl ⟨rfl, nofun⟩
  · unfold closer
    by_cases hless : slack < least
    · exact Or.inl ⟨if_pos hless, by simpa using hless⟩
    · exact Or.inr ⟨if_neg hless, _, rfl, Nat.le_of_not_lt hless⟩

lemma tightest_mem {size : Nat} {best found : Option (Nat × Nat)} {blocks : List (Nat × Nat)}
    (h : tightest size best blocks = found) :
    (∀ b ∈ found, some b = best ∨ ∃ n, (b.1, n) ∈ blocks) ∧
      (found = none → best = none ∧ blocks = []) := by
  unfold tightest at h
  induction blocks generalizing best with
  | nil =>
    rw [List.foldl_nil] at h
    subst h
    exact ⟨fun b hb => Or.inl hb.symm, fun h => ⟨h, rfl⟩⟩
  | cons c blocks ih =>
    rw [List.foldl_cons] at h
    obtain ⟨hmem, hnone⟩ := ih h
    have hcases := Arena.closer_cases best c.1 (c.2 - size)
    constructor
    · intro b hb
      rcases hmem b hb with hbest | ⟨n, hn⟩
      · rcases hcases with ⟨hnew, _⟩ | ⟨hold, _⟩
        · obtain rfl := Option.some.inj (hbest.trans hnew)
          exact Or.inr ⟨c.2, List.mem_cons_self⟩
        · exact Or.inl (hbest.trans hold)
      · exact Or.inr ⟨n, List.mem_cons_of_mem _ hn⟩
    · intro hfound
      have hbest := (hnone hfound).1
      rcases hcases with ⟨hnew, _⟩ | ⟨hold, b, hb, _⟩
      · exact absurd (hnew.symm.trans hbest) nofun
      · exact absurd (hb.symm.trans (hold.symm.trans hbest)) nofun

namespace Arena

variable {σ : Type} {h : Arena σ} {pre post : List Piece} {p : Piece} {size : Nat}

/-- The opening that the policy takes. -/
def search (h : Arena σ) (size : Nat) (blocks : List Piece) : Option Nat :=
  match h.placement with
  | .firstFit => (openings size h.start blocks).head?.map Prod.fst
  | .bestFit => (tightest size none (openings size h.start blocks)).map Prod.fst
  | .nextFit cursor =>
    (lapped (h.origin cursor) (openings size h.start blocks)).head?.map Prod.fst

/-- What the policy remembers of a search. -/
def searched (h : Arena σ) (size : Nat) (blocks : List Piece) : Placement :=
  match h.placement with
  | .nextFit cursor => .nextFit (some ((h.search size blocks).getD (h.origin cursor)))
  | other => other

lemma search_some {blocks : List Piece} {b : Nat} (hfound : h.search size blocks = some b) :
    ∃ pre n post, blocks = pre ++ ⟨n, .free⟩ :: post ∧ b = h.start + span pre ∧ size ≤ n := by
  have hmem : ∃ n, (b, n) ∈ openings size h.start blocks := by
    unfold search at hfound
    split at hfound
    next =>
      obtain ⟨⟨c, n⟩, hhead, rfl⟩ := Option.map_eq_some_iff.mp hfound
      exact ⟨n, List.mem_of_mem_head? hhead⟩
    next =>
      obtain ⟨⟨c, n⟩, hbest, rfl⟩ := Option.map_eq_some_iff.mp hfound
      rcases (tightest_mem hbest).1 _ rfl with hnone | hsome
      · exact absurd hnone (by simp)
      · exact hsome
    next =>
      obtain ⟨⟨c, n⟩, hhead, rfl⟩ := Option.map_eq_some_iff.mp hfound
      exact ⟨n, (mem_lapped _).mp (List.mem_of_mem_head? hhead)⟩
  obtain ⟨n, hn⟩ := hmem
  obtain ⟨hle, pre, post, hblocks, hb⟩ := mem_openings_iff.mp hn
  exact ⟨pre, n, post, hblocks, hb, hle⟩

lemma search_none {blocks : List Piece} (hnone : h.search size blocks = none) :
    openings size h.start blocks = [] := by
  unfold search at hnone
  split at hnone
  next => exact List.head?_eq_none_iff.mp (Option.map_eq_none_iff.mp hnone)
  next => exact ((tightest_mem (Option.map_eq_none_iff.mp hnone)).2 rfl).2
  next cursor _ =>
    have hempty := List.head?_eq_none_iff.mp (Option.map_eq_none_iff.mp hnone)
    refine List.eq_nil_iff_forall_not_mem.mpr fun b hb => ?_
    have hlap := (mem_lapped (h.origin cursor)).mpr hb
    rw [hempty] at hlap
    exact absurd hlap List.not_mem_nil

lemma searched_policy {blocks : List Piece} :
    (h.searched size blocks).policy = h.placement.policy := by
  unfold searched
  split
  next hp => rw [hp]; rfl
  next => rfl

lemma withPlacement_searched {blocks : List Piece} (hp : ∀ c, h.placement ≠ .nextFit c) :
    h.withPlacement (h.searched size blocks) = h := by
  unfold searched
  split
  next c hc => exact absurd hc (hp c)
  next => rfl

/-- A lap starts at a block, also when the cursor is no place in the arena. -/
lemma origin_split {blocks : List Piece} (cursor : Option Nat) (hne : blocks ≠ [])
    (hcursor : ∀ c ∈ cursor, c ∈ heads h.start blocks ∨ c < h.start ∨ h.stop ≤ c) :
    ∃ pre post, blocks = pre ++ post ∧ post ≠ [] ∧ h.origin cursor = h.start + span pre := by
  rcases cursor with _ | c
  · exact ⟨[], blocks, rfl, hne, rfl⟩
  · unfold origin
    by_cases hin : h.start ≤ c ∧ c < h.stop
    · simp only [if_pos hin]
      rcases hcursor c rfl with hmem | hout | hout
      · obtain ⟨pre, p, post, rfl, rfl⟩ := mem_heads_iff.mp hmem
        exact ⟨pre, p :: post, rfl, by simp, rfl⟩
      · omega
      · omega
    · simp only [if_neg hin]
      exact ⟨[], blocks, rfl, hne, rfl⟩

lemma searched_pointsInto {blocks : List Piece} (hne : blocks ≠ [])
    (hcursor : h.placement.PointsInto (heads h.start blocks)) :
    (h.searched size blocks).PointsInto (heads h.start blocks) := by
  unfold searched
  split
  next cursor hp =>
    rintro c hc
    have hc' : (h.search size blocks).getD (h.origin cursor) = c := Option.some.inj hc
    cases hfound : h.search size blocks with
    | some b =>
      rw [hfound, Option.getD_some] at hc'
      subst hc'
      obtain ⟨pre, n, post, hblocks, hb, _⟩ := search_some hfound
      exact mem_heads_iff.mpr ⟨pre, _, post, hblocks, hb⟩
    | none =>
      rw [hfound, Option.getD_none] at hc'
      subst hc'
      obtain ⟨pre, post, hblocks, hpost, horigin⟩ := origin_split cursor hne
        fun c hc => Or.inl (hcursor c (by rw [hp]; exact hc))
      obtain ⟨p, rest, rfl⟩ := List.exists_cons_of_ne_nil hpost
      exact mem_heads_iff.mpr ⟨pre, p, rest, hblocks, horigin⟩
  next => exact hcursor

variable [Segment σ]

lemma fits_eq (hp : p.Whole) : fits ⟨p.bits⟩ size = .ok (decide (p.Fits size)) := by
  unfold fits
  rw [hp.tag_isFree, hp.tag_size]
  change Except.ok _ = _
  congr 1
  exact (Bool.decide_and _ _).symm

lemma look_walks {α : Type} {f : Tag → Bool → Action σ α} {x : α} {h' : Arena σ}
    (hl : h.Linked (pre ++ p :: post))
    (hf : Action.Walks (f ⟨p.bits⟩ (decide (p.Fits size))) h x h') :
    Action.Walks (Action.load (h.start + span pre) >>= fun tag => do f tag (← fits tag size))
      h x h' := by
  have hload := hl.load_walks
  simp only [headBits, List.head?_cons, Option.map_some, Option.getD_some] at hload
  apply hload.andThen
  exact (Action.Walks.lift (fits_eq hl.whole) h).andThen hf

lemma block_lt_stop (hl : h.Laid (pre ++ p :: post)) : h.start + span pre < h.stop :=
  hl.linked.block_lt_stop

lemma span_step (a : Nat) (pre : List Piece) (p : Piece) :
    a + span (pre ++ [p]) = a + span pre + p.size := by
  simp [Nat.add_assoc]

theorem firstFit_walks (size : Nat) {steps : Nat} (hl : h.Linked (pre ++ post))
    (hsteps : post.length < steps) :
    Action.Walks (firstFit h.stop size steps (h.start + span pre)) h
      ((openings size (h.start + span pre) post).head?.map Prod.fst) h := by
  induction post generalizing pre steps with
  | nil =>
    obtain ⟨steps, rfl⟩ := Nat.exists_eq_add_of_lt hsteps
    have hlands := hl.lands
    rw [List.append_nil] at hlands
    unfold firstFit
    rw [if_pos (by omega)]
    exact Action.Walks.pure _ _
  | cons p post ih =>
    obtain ⟨steps, rfl⟩ : ∃ n, steps = n + 1 := ⟨steps - 1, by omega⟩
    have hlt := hl.block_lt_stop
    unfold firstFit
    rw [if_neg (by omega)]
    apply look_walks hl
    by_cases hfits : p.Fits size
    · rw [decide_eq_true hfits, openings_of_fits hfits]
      exact Action.Walks.pure _ _
    · have hsize := hl.whole.tag_size
      have hpos := hl.whole.1
      rw [decide_eq_false hfits, openings_of_not_fits hfits, if_neg Bool.false_ne_true, hsize,
        if_neg (by omega), hl.forward_block, ← span_step]
      exact ih hl.step (by simp only [List.length_cons] at hsteps; omega)

/-- The best block before is never an exact fit, since the walk ends at one. -/
theorem bestFit_walks (size : Nat) {steps : Nat} (best : Option (Nat × Nat))
    (hl : h.Linked (pre ++ post)) (hsteps : post.length < steps) (hbest : ∀ b ∈ best, 0 < b.2) :
    Action.Walks (bestFit h.stop size steps (h.start + span pre) best) h
      ((tightest size best (openings size (h.start + span pre) post)).map Prod.fst) h := by
  induction post generalizing pre steps best with
  | nil =>
    obtain ⟨steps, rfl⟩ : ∃ n, steps = n + 1 := ⟨steps - 1, by omega⟩
    have hlands := hl.lands
    rw [List.append_nil] at hlands
    unfold bestFit
    rw [if_pos (by omega)]
    exact Action.Walks.pure _ _
  | cons p post ih =>
    obtain ⟨steps, rfl⟩ : ∃ n, steps = n + 1 := ⟨steps - 1, by omega⟩
    have hlt := hl.block_lt_stop
    have hsize := hl.whole.tag_size
    have hpos := hl.whole.1
    unfold bestFit
    rw [if_neg (by omega)]
    apply look_walks hl
    by_cases hfits : p.Fits size
    · rw [decide_eq_true hfits, openings_of_fits hfits, Bool.true_and]
      by_cases hexact : p.size = size
      · have hcloser : closer best (h.start + span pre) (p.size - size) =
            some (h.start + span pre, 0) := by
          rw [hexact, Nat.sub_self]
          rcases best with _ | ⟨other, least⟩
          · rfl
          · exact if_pos (hbest _ rfl)
        rw [hsize, if_pos (decide_eq_true hexact)]
        have htight := tightest_exact size (h.start + span pre)
          (openings size (h.start + span pre + p.size) post)
        unfold tightest at htight ⊢
        rw [List.foldl_cons, hcloser, htight]
        exact Action.Walks.pure _ _
      · rw [hsize, if_neg (by simpa using hexact), if_pos rfl, if_neg (by omega),
          hl.forward_block, ← span_step]
        apply ih _ hl.step (by simp only [List.length_cons] at hsteps; omega)
        intro b hb
        rcases closer_cases best (h.start + span pre) (p.size - size) with ⟨hnew, _⟩ | ⟨hold, _⟩
        · obtain rfl := Option.some.inj (hnew.symm.trans hb)
          have hle := hfits.2
          simp only
          omega
        · exact hbest b (hold.symm.trans hb)
    · rw [decide_eq_false hfits, openings_of_not_fits hfits, Bool.false_and,
        if_neg Bool.false_ne_true, if_neg Bool.false_ne_true, hsize, if_neg (by omega),
        hl.forward_block, ← span_step]
      exact ih _ hl.step (by simp only [List.length_cons] at hsteps; omega) hbest

/-- The second part of a lap: from a block before the origin up to the origin. -/
lemma lap_before_walks {mid : List Piece} {steps : Nat} (hl : h.Linked (pre ++ mid ++ post))
    (hmid : mid ≠ []) (hpost : post ≠ []) (hsteps : mid.length ≤ steps) :
    Action.Walks (lap h.start h.stop size (h.start + span (pre ++ mid)) steps (h.start + span pre)) h
      ((openings size (h.start + span pre) mid).head?.map Prod.fst) h := by
  induction mid generalizing pre steps with
  | nil => exact absurd rfl hmid
  | cons p mid ih =>
    obtain ⟨steps, rfl⟩ : ∃ n, steps = n + 1 := ⟨steps - 1, by simp at hsteps; omega⟩
    have hat : h.Linked (pre ++ p :: (mid ++ post)) := by simpa using hl
    have hmoved : pre ++ p :: mid = pre ++ [p] ++ mid := by simp
    rw [hmoved] at hl ⊢
    have hlt : h.start + span (pre ++ [p]) < h.stop := by
      have hrest : h.Linked ((pre ++ [p]) ++ (mid ++ post)) := by simpa using hl
      rcases hcons : mid ++ post with _ | ⟨q, rest⟩
      · exact absurd (List.append_eq_nil_iff.mp hcons).2 hpost
      · rw [hcons] at hrest
        exact hrest.block_lt_stop
    unfold lap
    apply look_walks hat
    by_cases hfits : p.Fits size
    · rw [decide_eq_true hfits, openings_of_fits hfits]
      exact Action.Walks.pure _ _
    · have hnext : (if h.stop ≤ h.start + span (pre ++ [p]) then h.start
          else h.start + span (pre ++ [p])) = h.start + span (pre ++ [p]) := if_neg (by omega)
      rw [decide_eq_false hfits, openings_of_not_fits hfits, if_neg Bool.false_ne_true,
        hat.whole.tag_size, hat.forward_block, ← span_step]
      dsimp only
      rw [hnext]
      by_cases hlast : mid = []
      · subst hlast
        rw [List.append_nil, if_pos rfl]
        exact Action.Walks.pure _ _
      · have hgap : 0 < span mid := by
          obtain ⟨q, rest, rfl⟩ := List.exists_cons_of_ne_nil hlast
          have hq : q.Whole := hat.chained.tiles.whole (by simp)
          have hpos := hq.1
          rw [span_cons]
          omega
        have hahead : h.start + span (pre ++ [p]) ≠ h.start + span (pre ++ [p] ++ mid) := by
          rw [span_append (pre ++ [p])]
          omega
        rw [if_neg hahead]
        exact ih hl hlast (by simp only [List.length_cons] at hsteps; omega)

/-- A lap from a block on that is the origin or after it. -/
lemma lap_after_walks (size steps : Nat) {mid : List Piece} (hl : h.Linked (pre ++ mid ++ post))
    (hpost : post ≠ []) (hsteps : post.length + pre.length ≤ steps) :
    Action.Walks (lap h.start h.stop size (h.start + span pre) steps (h.start + span (pre ++ mid))) h
      ((openings size (h.start + span (pre ++ mid)) post ++ openings size h.start pre).head?.map
        Prod.fst) h := by
  induction post generalizing mid steps with
  | nil => exact absurd rfl hpost
  | cons p post ih =>
    obtain ⟨steps, rfl⟩ : ∃ n, steps = n + 1 := ⟨steps - 1, by simp at hsteps; omega⟩
    have hpos := hl.whole.1
    unfold lap
    apply look_walks hl
    by_cases hfits : p.Fits size
    · rw [decide_eq_true hfits, openings_of_fits hfits]
      exact Action.Walks.pure _ _
    · rw [decide_eq_false hfits, openings_of_not_fits hfits, if_neg Bool.false_ne_true,
        hl.whole.tag_size, hl.forward_block, ← span_step]
      have hmoved : h.Linked (pre ++ (mid ++ [p]) ++ post) := by simpa using hl
      by_cases hlast : post = []
      · -- the walk goes on at the first block, unless that is the origin
        subst hlast
        have hlands := hl.lands
        have hnext : (if h.stop ≤ h.start + span (pre ++ mid ++ [p]) then h.start
            else h.start + span (pre ++ mid ++ [p])) = h.start := if_pos (by omega)
        dsimp only
        rw [hnext]
        rcases List.eq_nil_or_concat' pre with rfl | ⟨init, q, hpre⟩
        · rw [span_nil, Nat.add_zero, if_pos rfl]
          exact Action.Walks.pure _ _
        · have hq : q.Whole := hl.chained.tiles.whole (by rw [hpre]; simp)
          have hgap := hq.1
          have hsplit : h.Linked ([] ++ pre ++ (mid ++ [p])) := by simpa using hmoved
          have hahead : h.start ≠ h.start + span pre := by
            rw [hpre, span_append, span_cons]
            omega
          rw [if_neg hahead]
          exact lap_before_walks hsplit (by rw [hpre]; simp) (by simp)
            (by simp only [List.length_cons] at hsteps; omega)
      · obtain ⟨q, rest, hcons⟩ := List.exists_cons_of_ne_nil hlast
        have hrest : h.Linked (pre ++ (mid ++ [p]) ++ q :: rest) := by rwa [← hcons]
        have hlt := hrest.block_lt_stop
        have hnext : (if h.stop ≤ h.start + span (pre ++ (mid ++ [p])) then h.start
            else h.start + span (pre ++ (mid ++ [p]))) = h.start + span (pre ++ (mid ++ [p])) :=
          if_neg (by omega)
        have hahead : h.start + span (pre ++ (mid ++ [p])) ≠ h.start + span pre := by
          simp only [span_append, span_cons]
          omega
        dsimp only
        rw [List.append_assoc, hnext, if_neg hahead]
        exact ih _ hmoved hlast (by simp only [List.length_cons] at hsteps; omega)

/-- A chain without blocks shows the end sentinel, which fits nothing. -/
lemma lap_nothing_walks {steps : Nat} (hl : h.Linked []) (hsteps : 0 < steps) :
    Action.Walks (lap h.start h.stop size h.start steps h.start) h none h := by
  obtain ⟨steps, rfl⟩ : ∃ n, steps = n + 1 := ⟨steps - 1, by omega⟩
  have hempty : h.Linked ([] ++ []) := hl
  have hload := hempty.load_walks
  have hlt := hl.stop_lt
  have hlands := hl.lands
  simp only [span_nil, Nat.add_zero] at hload hlands
  have hfits : fits ⟨headBits []⟩ size = .ok false := rfl
  have hnext : Word.forward h.start (Tag.size ⟨headBits []⟩) = h.start :=
    Word.forward_of_lt (by rw [hlands]; exact hlt)
  unfold lap
  apply hload.andThen
  apply (Action.Walks.lift hfits h).andThen
  rw [if_neg Bool.false_ne_true, hnext]
  dsimp only
  rw [if_pos (Nat.le_of_eq hlands.symm), if_pos rfl]
  exact Action.Walks.pure _ _

/-- A lap looks at no block twice: as many steps as there are blocks are enough. -/
theorem lap_walks (size : Nat) {steps : Nat} {blocks : List Piece} (cursor : Option Nat)
    (hl : h.Linked blocks)
    (hcursor : ∀ c ∈ cursor, c ∈ heads h.start blocks ∨ c < h.start ∨ h.stop ≤ c)
    (hpos : 0 < steps) (hsteps : blocks.length ≤ steps) :
    Action.Walks (lap h.start h.stop size (h.origin cursor) steps (h.origin cursor)) h
      ((lapped (h.origin cursor) (openings size h.start blocks)).head?.map Prod.fst) h := by
  by_cases hne : blocks = []
  · subst hne
    have hlands := hl.lands
    have horigin : h.origin cursor = h.start := by
      unfold origin
      cases cursor with
      | none => rfl
      | some c =>
        simp only [span_nil, Nat.add_zero] at hlands
        exact if_neg (by omega)
    rw [horigin]
    exact lap_nothing_walks hl hpos
  · obtain ⟨pre, post, rfl, hpost, horigin⟩ := origin_split cursor hne hcursor
    have hwhole : ∀ p ∈ pre, 0 < p.size := fun p hmem =>
      (hl.chained.tiles.whole (List.mem_append_left _ hmem)).1
    have hsplit : h.Linked (pre ++ [] ++ post) := by rwa [List.append_nil]
    have hlap := lap_after_walks size steps hsplit hpost
      (by simp only [List.length_append] at hsteps; omega)
    simp only [List.append_nil] at hlap
    rw [horigin, lapped_openings hwhole]
    exact hlap

lemma nextFit_walks (size : Nat) {blocks : List Piece} (cursor : Option Nat) (hl : h.Linked blocks)
    (hcursor : ∀ c ∈ cursor, c ∈ heads h.start blocks ∨ c < h.start ∨ h.stop ≤ c) :
    let found := (lapped (h.origin cursor) (openings size h.start blocks)).head?.map Prod.fst
    Action.Walks (nextFit cursor size) h found
      (h.withPlacement (.nextFit (some (found.getD (h.origin cursor))))) := by
  intro found
  have hsteps := hl.length_lt_walkLimit
  have hlap := lap_walks size cursor hl hcursor (Nat.zero_lt_of_lt hsteps) (Nat.le_of_lt hsteps)
  have hset : Action.Walks (setCursor (some (found.getD (h.origin cursor)))) h ()
      (h.withPlacement (.nextFit (some (found.getD (h.origin cursor))))) :=
    ⟨rfl, rfl, by simp [setCursor, Action.modify], rfl, rfl, rfl⟩
  unfold nextFit
  apply (Action.Walks.get h).andThen
  apply hlap.andThen
  exact hset.andThen (Action.Walks.pure _ _)

theorem find_walks (size : Nat) {blocks : List Piece} (hl : h.Linked blocks)
    (hcursor : ∀ c ∈ h.placement.cursor, c ∈ heads h.start blocks ∨ c < h.start ∨ h.stop ≤ c) :
    Action.Walks (find size) h (h.search size blocks)
      (h.withPlacement (h.searched size blocks)) := by
  have hsteps := hl.length_lt_walkLimit
  have hl' : h.Linked ([] ++ blocks) := hl
  unfold find
  apply (Action.Walks.get h).andThen
  cases hp : h.placement with
  | firstFit =>
    have hwalk := firstFit_walks size hl' hsteps
    rw [withPlacement_searched (by simp [hp])]
    unfold search
    rw [hp]
    exact hwalk
  | bestFit =>
    have hwalk := bestFit_walks size none hl' hsteps (by simp)
    rw [withPlacement_searched (by simp [hp])]
    unfold search
    rw [hp]
    exact hwalk
  | nextFit cursor =>
    have hwalk := nextFit_walks size cursor hl fun c hc => hcursor c (by rw [hp]; exact hc)
    unfold searched search
    rw [hp]
    exact hwalk

theorem find_runs (size : Nat) {blocks : List Piece} (hl : h.Laid blocks)
    (hcursor : ∀ c ∈ h.placement.cursor, c ∈ heads h.start blocks ∨ c < h.start ∨ h.stop ≤ c) :
    Action.Runs (find size) h (h.search size blocks)
      (h.withPlacement (h.searched size blocks)) [] :=
  (find_walks size hl.linked hcursor).runs hl

end Arena
end BlockHeap
