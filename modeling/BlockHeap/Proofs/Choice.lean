import BlockHeap.Proofs.Search
import BlockHeap.Proofs.Session

/-!
# What a search chooses

Each policy has an order in which it takes the free blocks that are large enough: by address, by size
and then by address, or by how far a lap from the cursor goes before it comes to them. A search
answers the first block in that order, whatever shape its loop has and wherever it ends early, and
it answers none only if no block is large enough.
-/

namespace BlockHeap

/-- Of two blocks, given by address and size, the second does not lie below the first. -/
def Lower (b c : Nat × Nat) : Prop :=
  b.1 ≤ c.1

/-- The first block is smaller, or of the same size and not above the second. -/
def Tighter (b c : Nat × Nat) : Prop :=
  b.2 < c.2 ∨ b.2 = c.2 ∧ b.1 ≤ c.1

/-- The answer is the address of one of the blocks that no other comes before; it is none exactly if
there are no blocks. -/
structure Chosen (before : Nat × Nat → Nat × Nat → Prop) (blocks : List (Nat × Nat))
    (answer : Option Nat) : Prop where
  none_iff : answer = none ↔ blocks = []
  first : ∀ a ∈ answer, ∃ n, (a, n) ∈ blocks ∧ ∀ c ∈ blocks, before (a, n) c

section Openings

variable {size a : Nat} {blocks : List Piece}

lemma openings_eq_nil_iff : openings size a blocks = [] ↔ ∀ p ∈ blocks, ¬p.Fits size := by
  induction blocks generalizing a with
  | nil => simp [openings]
  | cons p rest ih =>
    rw [List.forall_mem_cons]
    by_cases hfits : p.Fits size
    · rw [openings_of_fits hfits]
      exact iff_of_false (List.cons_ne_nil _ _) fun h => h.1 hfits
    · rw [openings_of_not_fits hfits, ih]
      exact (and_iff_right hfits).symm

lemma openings_sorted (hpos : ∀ p ∈ blocks, 0 < p.size) :
    (openings size a blocks).Pairwise fun b c => b.1 < c.1 := by
  induction blocks generalizing a with
  | nil => exact List.Pairwise.nil
  | cons p rest ih =>
    have hrest := ih (a := a + p.size) fun q hq => hpos q (List.mem_cons_of_mem _ hq)
    by_cases hfits : p.Fits size
    · rw [openings_of_fits hfits]
      refine List.pairwise_cons.mpr ⟨?_, hrest⟩
      intro c hc
      have hlow := (le_of_mem_openings hc).1
      have hsize := hpos p List.mem_cons_self
      simp only
      omega
    · rwa [openings_of_not_fits hfits]

lemma size_le_of_mem_openings {b : Nat × Nat} (h : b ∈ openings size a blocks) : size ≤ b.2 :=
  (mem_openings_iff.mp (show (b.1, b.2) ∈ _ from h)).1

end Openings

section Orders

variable {before : Nat × Nat → Nat × Nat → Prop} {xs ys : List (Nat × Nat)} {r : Option Nat}

/-- In a list that is in order, the first block is the one to choose. -/
lemma chosen_head (hrefl : ∀ b, before b b) (hsorted : xs.Pairwise before) :
    Chosen before xs (xs.head?.map Prod.fst) := by
  cases xs with
  | nil => exact ⟨by simp, by simp⟩
  | cons b rest =>
    refine ⟨by simp, ?_⟩
    intro a ha
    obtain rfl := Option.some.inj ha
    refine ⟨b.2, List.mem_cons_self, ?_⟩
    intro c hc
    rcases List.mem_cons.mp hc with rfl | hc
    · exact hrefl _
    · exact (List.pairwise_cons.mp hsorted).1 c hc

/-- What is chosen depends on which blocks there are, not on where the list has them. -/
lemma Chosen.congr (h : Chosen before xs r) (hmem : ∀ b, b ∈ xs ↔ b ∈ ys) :
    Chosen before ys r := by
  have hnil : xs = [] ↔ ys = [] := by
    rw [List.eq_nil_iff_forall_not_mem, List.eq_nil_iff_forall_not_mem]
    exact forall_congr' fun b => not_congr (hmem b)
  refine ⟨h.none_iff.trans hnil, ?_⟩
  intro a ha
  obtain ⟨n, hin, hbest⟩ := h.first a ha
  exact ⟨n, (hmem _).mp hin, fun c hc => hbest c ((hmem c).mpr hc)⟩

/-- What a scan for the least slack ends with is what it began with or a block on the way, and the
first one on the way if others have as little slack. -/
lemma tightest_spec {size : Nat} {best : Option (Nat × Nat)} {found : Nat × Nat}
    {blocks : List (Nat × Nat)} (hsorted : blocks.Pairwise fun b c => b.1 < c.1)
    (h : tightest size best blocks = some found) :
    (∀ b ∈ best, found.2 ≤ b.2) ∧ (∀ c ∈ blocks, found.2 ≤ c.2 - size) ∧
      (best = some found ∨ (∃ n, (found.1, n) ∈ blocks ∧ found.2 = n - size) ∧
        (∀ b ∈ best, found.2 < b.2) ∧ ∀ c ∈ blocks, found.2 = c.2 - size → found.1 ≤ c.1) := by
  unfold tightest at h
  induction blocks generalizing best with
  | nil =>
    rw [List.foldl_nil] at h
    subst h
    exact ⟨by simp, by simp, Or.inl rfl⟩
  | cons c rest ih =>
    obtain ⟨hlow, hsorted⟩ := List.pairwise_cons.mp hsorted
    rw [List.foldl_cons] at h
    obtain ⟨hbest, hrest, hkept⟩ := ih hsorted h
    rcases Arena.closer_cases best c.1 (c.2 - size) with ⟨hnew, hless⟩ | ⟨hold, b, hb, hmore⟩
    · -- the block at hand is the best one so far
      rw [hnew] at hbest hkept
      have hle : found.2 ≤ c.2 - size := hbest _ rfl
      refine ⟨fun b hb => Nat.le_of_lt (Nat.lt_of_le_of_lt hle (hless b hb)),
        List.forall_mem_cons.mpr ⟨hle, hrest⟩, Or.inr ⟨?_, ?_, ?_⟩⟩
      · rcases hkept with hself | ⟨⟨n, hn, hslack⟩, _⟩
        · obtain rfl := Option.some.inj hself
          exact ⟨c.2, List.mem_cons_self, rfl⟩
        · exact ⟨n, List.mem_cons_of_mem _ hn, hslack⟩
      · exact fun b hb => Nat.lt_of_le_of_lt hle (hless b hb)
      · rcases hkept with hself | ⟨_, hbeaten, hties⟩
        · obtain rfl := Option.some.inj hself
          refine List.forall_mem_cons.mpr ⟨fun _ => Nat.le_refl _, ?_⟩
          exact fun d hd _ => Nat.le_of_lt (hlow d hd)
        · have hbeat : found.2 < c.2 - size := hbeaten _ rfl
          exact List.forall_mem_cons.mpr ⟨fun htie => by omega, hties⟩
    · rw [hold] at hbest hkept
      have hle := hbest b hb
      refine ⟨hbest, List.forall_mem_cons.mpr ⟨by omega, hrest⟩, ?_⟩
      rcases hkept with hself | ⟨⟨n, hn, hslack⟩, hbeaten, hties⟩
      · exact Or.inl hself
      · have hbeat := hbeaten b hb
        exact Or.inr ⟨⟨n, List.mem_cons_of_mem _ hn, hslack⟩, hbeaten,
          List.forall_mem_cons.mpr ⟨fun htie => by omega, hties⟩⟩

lemma tightest_chosen {size : Nat} {blocks : List (Nat × Nat)}
    (hsorted : blocks.Pairwise fun b c => b.1 < c.1) (hsize : ∀ b ∈ blocks, size ≤ b.2) :
    Chosen Tighter blocks ((tightest size none blocks).map Prod.fst) := by
  cases hfound : tightest size none blocks with
  | none =>
    have hempty := ((tightest_mem hfound).2 rfl).2
    exact ⟨by simp [hempty], by simp⟩
  | some found =>
    obtain ⟨_, hleast, hkept⟩ := tightest_spec hsorted hfound
    obtain ⟨⟨n, hn, hslack⟩, _, hties⟩ := hkept.resolve_left nofun
    refine ⟨iff_of_false nofun (List.ne_nil_of_mem hn), ?_⟩
    intro a ha
    obtain rfl := Option.some.inj ha
    refine ⟨n, hn, ?_⟩
    intro c hc
    have hroom := hsize _ hn
    have hroom' := hsize c hc
    have hle := hleast c hc
    have htie := hties c hc
    unfold Tighter
    simp only at hroom ⊢
    omega

end Orders

namespace Arena

variable {σ : Type} {h : Arena σ} {blocks : List Piece} {size : Nat}

/-- How far a lap from `origin` goes before it comes to the address `a`. -/
def ahead (h : Arena σ) (origin a : Nat) : Nat :=
  if origin ≤ a then a - origin else h.stop - origin + (a - h.start)

/-- A lap from `origin` does not come to the second block before the first. -/
def Sooner (h : Arena σ) (origin : Nat) (b c : Nat × Nat) : Prop :=
  h.ahead origin b.1 ≤ h.ahead origin c.1

/-- The policy does not take the second block before the first. -/
def Prefers (h : Arena σ) : Nat × Nat → Nat × Nat → Prop :=
  match h.placement with
  | .firstFit => Lower
  | .nextFit cursor => h.Sooner (h.origin cursor)
  | .bestFit => Tighter

/-- A lap meets the blocks in its own order. -/
lemma lapped_sorted {origin : Nat} {xs : List (Nat × Nat)} (horigin : origin ≤ h.stop)
    (hsorted : xs.Pairwise fun b c => b.1 < c.1) (hhigh : ∀ b ∈ xs, b.1 ≤ h.stop) :
    (lapped origin xs).Pairwise (h.Sooner origin) := by
  unfold lapped
  refine List.pairwise_append.mpr ⟨?_, ?_, ?_⟩
  · refine (hsorted.filter _).imp_of_mem ?_
    intro b c hb hc hlt
    have hb := of_decide_eq_true (List.mem_filter.mp hb).2
    have hc := of_decide_eq_true (List.mem_filter.mp hc).2
    unfold Sooner ahead
    rw [if_pos hb, if_pos hc]
    omega
  · refine (hsorted.filter _).imp_of_mem ?_
    intro b c hb hc hlt
    have hb := of_decide_eq_true (List.mem_filter.mp hb).2
    have hc := of_decide_eq_true (List.mem_filter.mp hc).2
    unfold Sooner ahead
    rw [if_neg (by omega), if_neg (by omega)]
    omega
  · intro b hb c hc
    have hin := hhigh b (List.mem_filter.mp hb).1
    have hb := of_decide_eq_true (List.mem_filter.mp hb).2
    have hc := of_decide_eq_true (List.mem_filter.mp hc).2
    unfold Sooner ahead
    rw [if_pos hb, if_neg (by omega)]
    omega

namespace Linked

variable (hl : h.Linked blocks)
include hl

lemma openings_sorted (size : Nat) :
    (openings size h.start blocks).Pairwise fun b c => b.1 < c.1 :=
  BlockHeap.openings_sorted fun _ hp => (hl.chained.tiles.whole hp).1

lemma origin_le (cursor : Option Nat) : h.origin cursor ≤ h.stop := by
  have hlands := hl.lands
  unfold origin
  split
  next => split <;> omega
  next => omega

lemma lap_chosen (cursor : Option Nat) (size : Nat) :
    Chosen (h.Sooner (h.origin cursor)) (openings size h.start blocks)
      ((lapped (h.origin cursor) (openings size h.start blocks)).head?.map Prod.fst) := by
  have hlands := hl.lands
  have hhigh : ∀ b ∈ openings size h.start blocks, b.1 ≤ h.stop := fun b hb => by
    have hin := (le_of_mem_openings hb).2
    omega
  have hlap := lapped_sorted (hl.origin_le cursor) (hl.openings_sorted size) hhigh
  exact (chosen_head (fun _ => Nat.le_refl _) hlap).congr fun _ => mem_lapped _

/-- A search answers what its policy chooses among the free blocks that are large enough. -/
theorem search_chosen (size : Nat) :
    Chosen h.Prefers (openings size h.start blocks) (h.search size blocks) := by
  have hsorted := hl.openings_sorted size
  unfold Prefers search
  cases h.placement with
  | firstFit => exact chosen_head (fun _ => Nat.le_refl _) (hsorted.imp Nat.le_of_lt)
  | nextFit cursor => exact hl.lap_chosen cursor size
  | bestFit => exact tightest_chosen hsorted fun _ => size_le_of_mem_openings

end Linked

/-- A cursor at a block is where a lap starts. -/
lemma Linked.origin_eq (hl : h.Linked blocks) {c : Nat} (hc : c ∈ heads h.start blocks) :
    h.origin (some c) = c := by
  obtain ⟨pre, p, post, rfl, rfl⟩ := mem_heads_iff.mp hc
  exact if_pos ⟨Nat.le_add_right _ _, hl.block_lt_stop⟩

/-- A cursor outside the chain, or none, leaves the start to the first block. -/
lemma origin_eq_start {cursor : Option Nat} (hout : ∀ c ∈ cursor, c < h.start ∨ h.stop ≤ c) :
    h.origin cursor = h.start := by
  cases cursor with
  | none => rfl
  | some c =>
    have hc := hout c rfl
    exact if_neg (by omega)

section Searching

variable [Segment σ]

/-- In every chain, with a cursor that is absent, at a block or outside, a next-fit search ends after
one lap at most. Of the free blocks that are large enough it answers the one that the lap comes to
first, from the cursor on or else from the first block on; it answers none exactly if there are no
such blocks. The cursor moves to the block that is found, or to where the lap started. -/
theorem Linked.nextFit_laps (hl : h.Linked blocks) (cursor : Option Nat) (size : Nat)
    (hcursor : ∀ c ∈ cursor, c ∈ heads h.start blocks ∨ c < h.start ∨ h.stop ≤ c) :
    ∃ (origin : Nat) (found : Option Nat),
      (∀ c ∈ cursor, c ∈ heads h.start blocks → origin = c) ∧
      ((∀ c ∈ cursor, c ∉ heads h.start blocks) → origin = h.start) ∧
      (∀ steps, 0 < steps → blocks.length ≤ steps →
        Action.Walks (lap h.start h.stop size origin steps origin) h found h) ∧
      Action.Walks (nextFit cursor size) h found
        (h.withPlacement (.nextFit (some (found.getD origin)))) ∧
      (found = none ↔ ∀ p ∈ blocks, ¬p.Fits size) ∧
      (∀ b ∈ found, ∃ n, (b, n) ∈ openings size h.start blocks ∧
        ∀ c ∈ openings size h.start blocks, h.ahead origin b ≤ h.ahead origin c.1) ∧
      (found = none → ∀ c ∈ cursor, c ∈ heads h.start blocks →
        (nextFit cursor size h).arena.placement = .nextFit cursor) := by
  obtain ⟨hnone, hfirst⟩ := hl.lap_chosen cursor size
  have hwalk := nextFit_walks size cursor hl hcursor
  refine ⟨h.origin cursor, _, ?_, ?_, fun steps => lap_walks size cursor hl hcursor, hwalk,
    hnone.trans openings_eq_nil_iff, hfirst, ?_⟩
  · rintro c rfl hc
    exact hl.origin_eq hc
  · intro hout
    exact origin_eq_start fun c hc => (hcursor c hc).resolve_left (hout c hc)
  · rintro hmiss c rfl hc
    rw [hwalk.arena, hmiss, hl.origin_eq hc]
    rfl

/-- The cursor is at the last block, which is taken, and the lap goes on at the first one. -/
theorem Linked.nextFit_laps_round : ∃ (h : Heap (Reservation .common)) (live : List Lease),
    Heap.session (⟨0x100000, 65536, 0, 4096⟩ : Reservation .common) Reservation.blank
      ⟨.nextFit, 1024, 1024, .off⟩
      [.allocate 100, .allocate 100, .allocate 100, .allocate 560, .free (some 0x100028)] =
        some (h, live) ∧
    h.arena.Linked [⟨128, .free⟩, ⟨128, .allocated⟩, ⟨128, .allocated⟩, ⟨576, .allocated⟩] ∧
    Action.Walks (nextFit (some 0x1001a0) 64) h.arena (some 0x100020)
      (h.arena.withPlacement (.nextFit (some 0x100020))) := by
  have hplayed : (Heap.session (⟨0x100000, 65536, 0, 4096⟩ : Reservation .common) Reservation.blank
      ⟨.nextFit, 1024, 1024, .off⟩ [.allocate 100, .allocate 100, .allocate 100, .allocate 560,
        .free (some 0x100028)]).map (fun s => (s.1.arena.start, decide (s.1.arena.Linked
          [⟨128, .free⟩, ⟨128, .allocated⟩, ⟨128, .allocated⟩, ⟨576, .allocated⟩]))) =
      some (0x100020, true) := by
    decide +kernel
  obtain ⟨⟨h, live⟩, hs, hfacts⟩ := Option.map_eq_some_iff.mp hplayed
  obtain ⟨hstart, hlinked⟩ := Prod.mk.inj hfacts
  simp only at hstart
  have hl := of_decide_eq_true hlinked
  have hcursor : ∀ c ∈ some 0x1001a0, c ∈ heads h.arena.start
      [⟨128, .free⟩, ⟨128, .allocated⟩, ⟨128, .allocated⟩, ⟨576, .allocated⟩] := by
    rw [hstart]
    decide
  refine ⟨h, live, hs, hl, ?_⟩
  obtain ⟨origin, found, _, _, _, hwalk, hnone, hfirst, _⟩ :=
    Linked.nextFit_laps hl (some 0x1001a0) 64 fun c hc => Or.inl (hcursor c hc)
  cases found with
  | none => exact absurd (hnone.mp rfl) (by decide)
  | some b =>
    obtain ⟨n, hn, _⟩ := hfirst b rfl
    rw [hstart] at hn
    obtain ⟨rfl, _⟩ := Prod.mk.inj (List.mem_singleton.mp
      (show (b, n) ∈ [(0x100020, 128)] from hn))
    exact hwalk

/-- In every chain, with a cursor that is absent or at a block: first fit answers the lowest one of the
free blocks that are large enough, best fit the lowest one of the smallest of them, and all three
policies answer a block exactly if there is one. -/
theorem Linked.policies_agree (hl : h.Linked blocks) (cursor : Option Nat) (size : Nat)
    (hcursor : ∀ c ∈ cursor, c ∈ heads h.start blocks) :
    ∃ first best next placement,
      Action.Walks (find size) (h.withPlacement .firstFit) first (h.withPlacement .firstFit) ∧
      Action.Walks (find size) (h.withPlacement .bestFit) best (h.withPlacement .bestFit) ∧
      Action.Walks (find size) (h.withPlacement (.nextFit cursor)) next
        (h.withPlacement placement) ∧
      (∀ a ∈ first, ∃ n, (a, n) ∈ openings size h.start blocks ∧
        ∀ c ∈ openings size h.start blocks, a ≤ c.1) ∧
      (∀ a ∈ best, ∃ n, (a, n) ∈ openings size h.start blocks ∧
        ∀ c ∈ openings size h.start blocks, n < c.2 ∨ n = c.2 ∧ a ≤ c.1) ∧
      (first.isSome ↔ ∃ p ∈ blocks, p.Fits size) ∧ (best.isSome ↔ ∃ p ∈ blocks, p.Fits size) ∧
        (next.isSome ↔ ∃ p ∈ blocks, p.Fits size) := by
  have hfound : ∀ p : Placement, ((h.withPlacement p).search size blocks).isSome ↔
      ∃ q ∈ blocks, q.Fits size := fun p => by
    have hnone := ((hl.withPlacement p).search_chosen size).none_iff.trans openings_eq_nil_iff
    rw [Option.isSome_iff_ne_none, ne_eq, hnone]
    push Not
    rfl
  have hwalks : ∀ p : Placement, p.cursor ∈ [none, cursor] →
      Action.Walks (find size) (h.withPlacement p) ((h.withPlacement p).search size blocks)
        (h.withPlacement ((h.withPlacement p).searched size blocks)) := fun p hp => by
    refine find_walks size (hl.withPlacement p) fun c hc => Or.inl ?_
    rcases List.mem_pair.mp hp with hnone | hsame
    · exact absurd (hnone.symm.trans hc) nofun
    · exact hcursor c (hsame ▸ hc)
  exact ⟨_, _, _, _, hwalks .firstFit (by simp [Placement.cursor]),
    hwalks .bestFit (by simp [Placement.cursor]),
    hwalks (.nextFit cursor) (by simp [Placement.cursor]),
    ((hl.withPlacement .firstFit).search_chosen size).first,
    ((hl.withPlacement .bestFit).search_chosen size).first, hfound _, hfound _, hfound _⟩

/-- Three blocks are large enough: the first one has bytes to spare, the two others are as tight as
each other. -/
theorem Linked.policies_agree_apart : ∃ (h : Heap (Reservation .common)) (live : List Lease),
    Heap.session (⟨0x100000, 65536, 0, 4096⟩ : Reservation .common) Reservation.blank Config.standard
      [.allocate 176, .allocate 48, .allocate 112, .allocate 48, .allocate 112, .allocate 368,
        .free (some 0x100028), .free (some 0x100128), .free (some 0x1001e8)] = some (h, live) ∧
    Action.Walks (find 100) (h.arena.withPlacement .firstFit) (some 0x100020)
      (h.arena.withPlacement .firstFit) ∧
    Action.Walks (find 100) (h.arena.withPlacement .bestFit) (some 0x100120)
      (h.arena.withPlacement .bestFit) ∧
    ∃ next placement, Action.Walks (find 100)
      (h.arena.withPlacement (.nextFit (some 0x1001a0))) (some next)
      (h.arena.withPlacement placement) := by
  let blocks : List Piece := [⟨192, .free⟩, ⟨64, .allocated⟩, ⟨128, .free⟩, ⟨64, .allocated⟩,
    ⟨128, .free⟩, ⟨384, .allocated⟩]
  have hplayed : (Heap.session (⟨0x100000, 65536, 0, 4096⟩ : Reservation .common) Reservation.blank
      Config.standard
      [.allocate 176, .allocate 48, .allocate 112, .allocate 48, .allocate 112, .allocate 368,
        .free (some 0x100028), .free (some 0x100128), .free (some 0x1001e8)]).map
        (fun s => (s.1.arena.start, decide (s.1.arena.Linked blocks))) = some (0x100020, true) := by
    decide +kernel
  obtain ⟨⟨h, live⟩, hs, hfacts⟩ := Option.map_eq_some_iff.mp hplayed
  obtain ⟨hstart, hlinked⟩ := Prod.mk.inj hfacts
  simp only at hstart
  have hcursor : ∀ c ∈ some 0x1001a0, c ∈ heads h.arena.start blocks := by
    rw [hstart]
    decide
  have hopen : openings 100 h.arena.start blocks =
      [(0x100020, 192), (0x100120, 128), (0x1001e0, 128)] := by
    rw [hstart]
    rfl
  have hfits : ∃ p ∈ blocks, p.Fits 100 := by decide
  obtain ⟨first, best, next, placement, hfirst, hbest, hnext, hlowest, htightest, hany, hany',
      hany''⟩ :=
    Linked.policies_agree (of_decide_eq_true hlinked) (some 0x1001a0) 100 hcursor
  rw [hopen] at hlowest htightest
  obtain ⟨a, rfl⟩ := Option.isSome_iff_exists.mp (hany.mpr hfits)
  obtain ⟨b, rfl⟩ := Option.isSome_iff_exists.mp (hany'.mpr hfits)
  obtain ⟨c, rfl⟩ := Option.isSome_iff_exists.mp (hany''.mpr hfits)
  obtain ⟨n, hn, hlow⟩ := hlowest a rfl
  obtain ⟨k, hk, htight⟩ := htightest b rfl
  replace hlow := hlow (0x100020, 192) (by decide)
  replace htight := htight (0x100120, 128) (by decide)
  simp only [List.mem_cons, Prod.mk.injEq, List.not_mem_nil, or_false] at hn hlow hk htight
  obtain rfl : a = 0x100020 := by omega
  obtain rfl : b = 0x100120 := by omega
  exact ⟨h, live, hs, hfirst, hbest, c, placement, hnext⟩

end Searching
end Arena
end BlockHeap
