import BlockHeap.Arena.Block
import BlockHeap.Proofs.Memory
import Mathlib.Data.List.Chain

/-!
# Chains of blocks in memory

A chain is described by the list of its pieces, the sizes and statuses of the blocks in the order
of their addresses. `Tiles m a blocks` says that the memory holds these blocks from `a` on, each
with its size and status in both tags, and `Chained` adds the sentinels. The lemmas say which words
a chain depends on, what a neighbour's tag is, and what writing both tags of a block does to it.
-/

namespace BlockHeap

/-- A block of a chain without its address. -/
structure Piece where
  size : Nat
  status : Status
deriving DecidableEq, Repr

lemma Tag.isFree_of_mod {n : Nat} (hn : n % blockUnit = 0) : Tag.isFree ⟨n⟩ = .ok true := by
  have hstatus : Tag.status? ⟨n⟩ = some .free := Tag.status?_add_bits hn .free
  unfold Tag.isFree Tag.status
  rw [hstatus]
  rfl

lemma Tag.size_mod (t : Tag) : t.size % blockUnit = 0 :=
  Nat.mul_mod_left _ _

/-- A tag is nothing but its size and its status. -/
lemma Tag.bits_eq {t : Tag} {status : Status} (h : t.status? = some status) :
    t.bits = t.size + status.bits := by
  have hsplit : t.size + t.bits % blockUnit = t.bits := Nat.div_add_mod' _ _
  unfold Tag.status? at h
  split at h
  next hlow =>
    obtain rfl := Option.some.inj h
    rw [hlow] at hsplit
    exact hsplit.symm
  next hlow =>
    obtain rfl := Option.some.inj h
    rw [hlow] at hsplit
    exact hsplit.symm
  next => exact absurd h nofun

namespace Piece

/-- What both tags of the piece hold. -/
def bits (p : Piece) : Nat :=
  p.size + p.status.bits

def Whole (p : Piece) : Prop :=
  0 < p.size ∧ p.size % blockUnit = 0

instance (p : Piece) : Decidable p.Whole :=
  inferInstanceAs (Decidable (_ ∧ _))

/-- Two pieces that may be neighbours: they are not both free. -/
def Apart (p q : Piece) : Prop :=
  ¬(p.status = .free ∧ q.status = .free)

lemma Whole.le {p : Piece} (h : p.Whole) : minBlockSize ≤ p.size := by
  have h0 := h.1
  have h1 := h.2
  simp only [blockUnit] at h1
  simp only [minBlockSize]
  omega

lemma Whole.tag_size {p : Piece} (h : p.Whole) : Tag.size ⟨p.bits⟩ = p.size :=
  Tag.size_add_bits h.2 p.status

lemma Whole.tag_status {p : Piece} (h : p.Whole) : Tag.status? ⟨p.bits⟩ = some p.status :=
  Tag.status?_add_bits h.2 p.status

lemma Whole.tag_isFree {p : Piece} (h : p.Whole) :
    Tag.isFree ⟨p.bits⟩ = .ok (decide (p.status = .free)) := by
  have hs : Tag.status ⟨p.bits⟩ = .ok p.status := by
    unfold Tag.status
    rw [h.tag_status]
  unfold Tag.isFree
  rw [hs]
  rfl

end Piece

/-- The bytes that the pieces of a chain take together. -/
def span : List Piece → Nat
  | [] => 0
  | p :: rest => p.size + span rest

@[simp] lemma span_nil : span [] = 0 := rfl

@[simp] lemma span_cons (p : Piece) (rest : List Piece) : span (p :: rest) = p.size + span rest :=
  rfl

@[simp] lemma span_append (xs ys : List Piece) : span (xs ++ ys) = span xs + span ys := by
  induction xs with
  | nil => simp
  | cons p xs ih => simp [ih, Nat.add_assoc]

/-- No block is smaller than the block unit. -/
lemma length_le_span {blocks : List Piece} (h : ∀ p ∈ blocks, p.Whole) :
    blockUnit * blocks.length ≤ span blocks := by
  induction blocks with
  | nil => simp
  | cons p rest ih =>
    have hle := (h p List.mem_cons_self).le
    have hrest := ih fun q hq => h q (List.mem_cons_of_mem _ hq)
    simp only [minBlockSize, blockUnit, List.length_cons, span_cons] at *
    omega

/-- The addresses of the blocks of a chain from `a` on. -/
def heads : Nat → List Piece → List Nat
  | _, [] => []
  | a, p :: rest => a :: heads (a + p.size) rest

@[simp] lemma heads_nil (a : Nat) : heads a [] = [] := rfl

@[simp] lemma heads_cons (a : Nat) (p : Piece) (rest : List Piece) :
    heads a (p :: rest) = a :: heads (a + p.size) rest := rfl

@[simp] lemma heads_append (a : Nat) (xs ys : List Piece) :
    heads a (xs ++ ys) = heads a xs ++ heads (a + span xs) ys := by
  induction xs generalizing a with
  | nil => simp
  | cons p xs ih => simp [ih, Nat.add_assoc]

/-- The addresses and sizes of the allocated blocks of a chain from `a` on. -/
def taken : Nat → List Piece → List (Nat × Nat)
  | _, [] => []
  | a, ⟨size, .free⟩ :: rest => taken (a + size) rest
  | a, ⟨size, .allocated⟩ :: rest => (a, size) :: taken (a + size) rest

@[simp] lemma taken_nil (a : Nat) : taken a [] = [] := rfl

@[simp] lemma taken_free (a size : Nat) (rest : List Piece) :
    taken a (⟨size, .free⟩ :: rest) = taken (a + size) rest := rfl

@[simp] lemma taken_allocated (a size : Nat) (rest : List Piece) :
    taken a (⟨size, .allocated⟩ :: rest) = (a, size) :: taken (a + size) rest := rfl

@[simp] lemma taken_append (a : Nat) (xs ys : List Piece) :
    taken a (xs ++ ys) = taken a xs ++ taken (a + span xs) ys := by
  induction xs generalizing a with
  | nil => simp
  | cons p xs ih =>
    obtain ⟨size, status⟩ := p
    cases status <;> simp [ih, Nat.add_assoc]

lemma taken_perm (a size : Nat) (pre post : List Piece) :
    (taken a (pre ++ ⟨size, .allocated⟩ :: post)).Perm
      ((a + span pre, size) :: (taken a pre ++ taken (a + span pre + size) post)) := by
  rw [taken_append, taken_allocated]
  exact List.perm_middle

lemma mem_taken_iff {a b size : Nat} {blocks : List Piece} :
    (b, size) ∈ taken a blocks ↔
      ∃ pre post, blocks = pre ++ ⟨size, .allocated⟩ :: post ∧ b = a + span pre := by
  constructor
  · intro h
    induction blocks generalizing a with
    | nil => simp at h
    | cons p rest ih =>
      obtain ⟨n, status⟩ := p
      cases status with
      | free =>
        obtain ⟨pre, post, rfl, rfl⟩ := ih h
        exact ⟨⟨n, .free⟩ :: pre, post, rfl, by simp [Nat.add_assoc]⟩
      | allocated =>
        rcases List.mem_cons.mp h with heq | hrest
        · obtain ⟨rfl, rfl⟩ := Prod.mk.inj heq
          exact ⟨[], rest, rfl, rfl⟩
        · obtain ⟨pre, post, rfl, rfl⟩ := ih hrest
          exact ⟨⟨n, .allocated⟩ :: pre, post, rfl, by simp [Nat.add_assoc]⟩
  · rintro ⟨pre, post, rfl, rfl⟩
    simp

lemma mem_heads_iff {a b : Nat} {blocks : List Piece} :
    b ∈ heads a blocks ↔ ∃ pre p post, blocks = pre ++ p :: post ∧ b = a + span pre := by
  constructor
  · intro h
    induction blocks generalizing a with
    | nil => simp at h
    | cons p rest ih =>
      rcases List.mem_cons.mp h with rfl | hrest
      · exact ⟨[], p, rest, rfl, rfl⟩
      · obtain ⟨pre, q, post, rfl, rfl⟩ := ih hrest
        exact ⟨p :: pre, q, post, rfl, by simp [Nat.add_assoc]⟩
  · rintro ⟨pre, p, post, rfl, rfl⟩
    simp

/-- There is one way only to cut a chain at an address. -/
lemma split_unique {pre post pre' post' : List Piece} {p p' : Piece}
    (hpos : ∀ q ∈ pre ++ p :: post, 0 < q.size) (heq : pre ++ p :: post = pre' ++ p' :: post')
    (hspan : span pre = span pre') : pre = pre' ∧ p = p' ∧ post = post' := by
  induction pre generalizing pre' with
  | nil =>
    cases pre' with
    | nil =>
      obtain ⟨hp, hpost⟩ := List.cons.inj heq
      exact ⟨rfl, hp, hpost⟩
    | cons q rest =>
      obtain ⟨rfl, _⟩ := List.cons.inj heq
      have hq := hpos p List.mem_cons_self
      simp only [span_nil, span_cons] at hspan
      omega
  | cons q rest ih =>
    have hq := hpos q List.mem_cons_self
    cases pre' with
    | nil =>
      simp only [span_nil, span_cons] at hspan
      omega
    | cons q' rest' =>
      obtain ⟨rfl, hrest⟩ := List.cons.inj heq
      obtain ⟨rfl, hp, hpost⟩ := ih (fun c hc => hpos c (List.mem_cons_of_mem _ hc)) hrest
        (Nat.add_left_cancel hspan)
      exact ⟨rfl, hp, hpost⟩

lemma le_of_mem_taken {a b size : Nat} {blocks : List Piece} (h : (b, size) ∈ taken a blocks) :
    a ≤ b ∧ b + size ≤ a + span blocks := by
  obtain ⟨pre, post, rfl, rfl⟩ := mem_taken_iff.mp h
  simp only [span_append, span_cons]
  omega

/-- The size of a free block in front of a chain, 0 if there is none. -/
def freeHead : List Piece → Nat
  | ⟨size, .free⟩ :: _ => size
  | _ => 0

def restHead : List Piece → List Piece
  | ⟨_, .free⟩ :: rest => rest
  | blocks => blocks

/-- The size of a free block at the end of a chain, 0 if there is none. -/
def freeTail (blocks : List Piece) : Nat :=
  freeHead blocks.reverse

def restTail (blocks : List Piece) : List Piece :=
  (restHead blocks.reverse).reverse

@[simp] lemma freeHead_nil : freeHead [] = 0 := rfl
@[simp] lemma freeHead_free (n : Nat) (rest : List Piece) : freeHead (⟨n, .free⟩ :: rest) = n := rfl
@[simp] lemma freeHead_allocated (n : Nat) (rest : List Piece) :
    freeHead (⟨n, .allocated⟩ :: rest) = 0 := rfl
@[simp] lemma restHead_nil : restHead [] = [] := rfl
@[simp] lemma restHead_free (n : Nat) (rest : List Piece) :
    restHead (⟨n, .free⟩ :: rest) = rest := rfl
@[simp] lemma restHead_allocated (n : Nat) (rest : List Piece) :
    restHead (⟨n, .allocated⟩ :: rest) = ⟨n, .allocated⟩ :: rest := rfl

@[simp] lemma freeTail_nil : freeTail [] = 0 := rfl
@[simp] lemma freeTail_free (n : Nat) (init : List Piece) :
    freeTail (init ++ [⟨n, .free⟩]) = n := by simp [freeTail]
@[simp] lemma freeTail_allocated (n : Nat) (init : List Piece) :
    freeTail (init ++ [⟨n, .allocated⟩]) = 0 := by simp [freeTail]
@[simp] lemma restTail_nil : restTail [] = [] := rfl
@[simp] lemma restTail_free (n : Nat) (init : List Piece) :
    restTail (init ++ [⟨n, .free⟩]) = init := by simp [restTail]
@[simp] lemma restTail_allocated (n : Nat) (init : List Piece) :
    restTail (init ++ [⟨n, .allocated⟩]) = init ++ [⟨n, .allocated⟩] := by simp [restTail]

lemma restTail_cons {p : Piece} {rest : List Piece} (h : rest ≠ []) :
    restTail (p :: rest) = p :: restTail rest := by
  rcases List.eq_nil_or_concat' rest with rfl | ⟨init, ⟨n, _ | _⟩, rfl⟩
  · exact absurd rfl h
  · rw [← List.cons_append, restTail_free, restTail_free]
  · rw [← List.cons_append, restTail_allocated, restTail_allocated, List.cons_append]

lemma head_cases (blocks : List Piece) :
    (freeHead blocks = 0 ∧ restHead blocks = blocks) ∨
      blocks = ⟨freeHead blocks, .free⟩ :: restHead blocks := by
  rcases blocks with _ | ⟨⟨n, status⟩, rest⟩
  · exact Or.inl ⟨rfl, rfl⟩
  · cases status with
    | free => exact Or.inr rfl
    | allocated => exact Or.inl ⟨rfl, rfl⟩

lemma tail_cases (blocks : List Piece) :
    (freeTail blocks = 0 ∧ restTail blocks = blocks) ∨
      blocks = restTail blocks ++ [⟨freeTail blocks, .free⟩] := by
  rcases List.eq_nil_or_concat' blocks with rfl | ⟨init, ⟨n, status⟩, rfl⟩
  · exact Or.inl ⟨rfl, rfl⟩
  · cases status with
    | free => simp
    | allocated => simp

lemma span_restHead (blocks : List Piece) :
    freeHead blocks + span (restHead blocks) = span blocks := by
  rcases head_cases blocks with ⟨h0, h1⟩ | h
  · rw [h0, h1, Nat.zero_add]
  · conv_rhs => rw [h]
    rfl

lemma span_restTail (blocks : List Piece) :
    span (restTail blocks) + freeTail blocks = span blocks := by
  rcases tail_cases blocks with ⟨h0, h1⟩ | h
  · rw [h0, h1, Nat.add_zero]
  · conv_rhs => rw [h]
    simp

lemma taken_restHead (a : Nat) (blocks : List Piece) :
    taken (a + freeHead blocks) (restHead blocks) = taken a blocks := by
  rcases head_cases blocks with ⟨h0, h1⟩ | h
  · rw [h0, h1, Nat.add_zero]
  · conv_rhs => rw [h]
    rfl

lemma taken_restTail (a : Nat) (blocks : List Piece) :
    taken a (restTail blocks) = taken a blocks := by
  rcases tail_cases blocks with ⟨_, h1⟩ | h
  · rw [h1]
  · conv_rhs => rw [h]
    simp

/-- A free block of `size` bytes, or none. -/
def remnant (size : Nat) : List Piece :=
  if 0 < size then [⟨size, .free⟩] else []

lemma remnant_of_pos {size : Nat} (h : 0 < size) : remnant size = [⟨size, .free⟩] :=
  if_pos h

@[simp] lemma remnant_zero : remnant 0 = [] := rfl

@[simp] lemma span_remnant (size : Nat) : span (remnant size) = size := by
  unfold remnant
  split
  next => simp
  next =>
    simp only [span_nil]
    omega

@[simp] lemma taken_remnant (a size : Nat) : taken a (remnant size) = [] := by
  unfold remnant
  split <;> rfl

lemma remnant_restHead {blocks : List Piece} (h : ∀ p ∈ blocks, p.Whole) :
    remnant (freeHead blocks) ++ restHead blocks = blocks := by
  rcases head_cases blocks with ⟨h0, h1⟩ | hb
  · rw [h0, h1]
    rfl
  · have hp : Piece.Whole ⟨freeHead blocks, .free⟩ := h _ (by rw [hb]; simp)
    conv_rhs => rw [hb]
    rw [remnant_of_pos hp.1]
    rfl

lemma restTail_remnant {blocks : List Piece} (h : ∀ p ∈ blocks, p.Whole) :
    restTail blocks ++ remnant (freeTail blocks) = blocks := by
  rcases tail_cases blocks with ⟨h0, h1⟩ | hb
  · rw [h0, h1, remnant_zero, List.append_nil]
  · have hp : Piece.Whole ⟨freeTail blocks, .free⟩ := h _ (by rw [hb]; simp)
    conv_rhs => rw [hb]
    rw [remnant_of_pos hp.1]

/-- No two neighbours are free. -/
abbrev Merged (blocks : List Piece) : Prop :=
  blocks.IsChain Piece.Apart

lemma Merged.restHead {blocks : List Piece} (h : Merged blocks) :
    Merged (restHead blocks) ∧ ∀ p ∈ (restHead blocks).head?, p.status = .allocated := by
  rcases blocks with _ | ⟨⟨n, status⟩, rest⟩
  · exact ⟨h, by simp⟩
  · cases status with
    | allocated => exact ⟨h, by simp⟩
    | free =>
      rcases rest with _ | ⟨⟨k, status⟩, rest⟩
      · exact ⟨by simp, by simp⟩
      · obtain ⟨hapart, hrest⟩ := List.isChain_cons_cons.mp h
        cases status with
        | free => exact absurd ⟨rfl, rfl⟩ hapart
        | allocated => exact ⟨hrest, by simp⟩

lemma Merged.reverse {blocks : List Piece} (h : Merged blocks) : Merged blocks.reverse := by
  unfold Merged at h ⊢
  rw [List.isChain_reverse]
  exact h.imp fun p q hpq hqp => hpq ⟨hqp.2, hqp.1⟩

lemma Merged.restTail {blocks : List Piece} (h : Merged blocks) :
    Merged (restTail blocks) ∧ ∀ p ∈ (restTail blocks).getLast?, p.status = .allocated := by
  have hrev := h.reverse.restHead
  unfold BlockHeap.restTail
  rw [List.getLast?_reverse]
  exact ⟨hrev.1.reverse, hrev.2⟩

lemma Merged.insert {pre post : List Piece} (n : Nat) (hpre : Merged pre) (hpost : Merged post) :
    Merged (BlockHeap.restTail pre ++ ⟨n, .free⟩ :: BlockHeap.restHead post) := by
  have hp := hpre.restTail
  have hq := hpost.restHead
  unfold Merged at *
  rw [List.isChain_append, List.isChain_cons]
  refine ⟨hp.1, ⟨fun q hmem => ?_, hq.1⟩, fun p hmem q hhead => ?_⟩
  · intro hfree
    have := hq.2 q hmem
    rw [this] at hfree
    exact absurd hfree.2 (by decide)
  · intro hfree
    have := hp.2 p hmem
    rw [this] at hfree
    exact absurd hfree.1 (by decide)

lemma Merged.sides {pre post : List Piece} {p : Piece} (h : Merged (pre ++ p :: post)) :
    Merged pre ∧ Merged post := by
  unfold Merged at *
  rw [List.isChain_append, List.isChain_cons] at h
  exact ⟨h.1, h.2.1.2⟩

lemma merged_allocated {pre post : List Piece} {n : Nat} :
    Merged (pre ++ ⟨n, .allocated⟩ :: post) ↔ Merged pre ∧ Merged post := by
  unfold Merged
  rw [List.isChain_append, List.isChain_cons]
  constructor
  · rintro ⟨hpre, ⟨_, hpost⟩, _⟩
    exact ⟨hpre, hpost⟩
  · rintro ⟨hpre, hpost⟩
    refine ⟨hpre, ⟨fun q _ hfree => ?_, hpost⟩, fun p _ q hq hfree => ?_⟩
    · simp at hfree
    · simp only [List.head?_cons, Option.mem_def, Option.some.injEq] at hq
      subst hq
      simp at hfree

lemma Merged.resize {n k : Nat} {status : Status} {post : List Piece}
    (h : Merged (⟨n, status⟩ :: post)) : Merged (⟨k, status⟩ :: post) := by
  unfold Merged at *
  rw [List.isChain_cons] at *
  exact h

lemma Merged.resizeLast {pre : List Piece} {n k : Nat} {status : Status}
    (h : Merged (pre ++ [⟨n, status⟩])) : Merged (pre ++ [⟨k, status⟩]) := by
  have hrev := h.reverse
  rw [List.reverse_append, List.reverse_singleton, List.singleton_append] at hrev
  have hback := (hrev.resize (k := k)).reverse
  rwa [List.reverse_cons, List.reverse_reverse] at hback

/-- The chain from `a` on with these allocated blocks, given by their addresses and sizes, and one
free block wherever there are bytes between two of them. -/
def rebuilt : Nat → List (Nat × Nat) → List Piece
  | _, [] => []
  | a, (b, n) :: rest => remnant (b - a) ++ ⟨n, .allocated⟩ :: rebuilt (b + n) rest

/-- Merged blocks are known by the allocated ones among them, but for a free block at the end. -/
lemma Merged.restTail_eq {blocks : List Piece} (a : Nat) (h : Merged blocks)
    (hwhole : ∀ p ∈ blocks, p.Whole) : BlockHeap.restTail blocks = rebuilt a (taken a blocks) := by
  induction blocks generalizing a with
  | nil => rfl
  | cons p rest ih =>
    obtain ⟨n, status⟩ := p
    have hrest := ih (a + n) (List.isChain_cons.mp h).2 fun q hq => hwhole q (List.mem_cons_of_mem _ hq)
    cases status with
    | allocated =>
      rw [taken_allocated, rebuilt, Nat.sub_self, remnant_zero, List.nil_append, ← hrest]
      rcases List.eq_nil_or_concat' rest with rfl | ⟨init, q, rfl⟩
      · rfl
      · rw [restTail_cons (by simp)]
    | free =>
      rw [taken_free]
      rcases rest with _ | ⟨⟨k, _ | _⟩, rest⟩
      · rfl
      · exact absurd ⟨rfl, rfl⟩ (List.isChain_cons_cons.mp h).1
      · have hpos : 0 < n := (hwhole _ List.mem_cons_self).1
        rw [restTail_cons (by simp), hrest, taken_allocated, rebuilt, rebuilt, Nat.sub_self,
          Nat.add_sub_cancel_left, remnant_of_pos hpos]
        rfl

lemma Merged.eq_rebuilt {blocks : List Piece} (a : Nat) (h : Merged blocks)
    (hwhole : ∀ p ∈ blocks, p.Whole) :
    blocks = rebuilt a (taken a blocks) ++ remnant (freeTail blocks) := by
  rw [← h.restTail_eq a hwhole, restTail_remnant hwhole]

/-- Merged blocks none of which is allocated are one free block. -/
lemma Merged.eq_single {a : Nat} {blocks : List Piece} (h : Merged blocks)
    (hwhole : ∀ p ∈ blocks, p.Whole) (hne : blocks ≠ []) (hnone : taken a blocks = []) :
    blocks = [⟨span blocks, .free⟩] := by
  have hblocks := h.eq_rebuilt a hwhole
  rw [hnone, rebuilt, List.nil_append] at hblocks
  unfold remnant at hblocks
  split at hblocks
  next =>
    rw [hblocks]
    simp
  next => exact absurd hblocks hne

/-- The memory holds the blocks of a chain from `a` on. -/
def Tiles (m : Memory) : Nat → List Piece → Prop
  | _, [] => True
  | a, p :: rest =>
    p.Whole ∧ m.word a = p.bits ∧ m.word (a + p.size - wordSize) = p.bits ∧ Tiles m (a + p.size) rest

instance Tiles.decidable (m : Memory) : (a : Nat) → (blocks : List Piece) → Decidable (Tiles m a blocks)
  | _, [] => isTrue trivial
  | a, p :: rest =>
    have := Tiles.decidable m (a + p.size) rest
    inferInstanceAs (Decidable (_ ∧ _ ∧ _ ∧ _))

@[simp] lemma tiles_nil (m : Memory) (a : Nat) : Tiles m a [] := trivial

lemma tiles_cons {m : Memory} {a : Nat} {p : Piece} {rest : List Piece} :
    Tiles m a (p :: rest) ↔ p.Whole ∧ m.word a = p.bits ∧
      m.word (a + p.size - wordSize) = p.bits ∧ Tiles m (a + p.size) rest := Iff.rfl

lemma tiles_append {m : Memory} {a : Nat} {xs ys : List Piece} :
    Tiles m a (xs ++ ys) ↔ Tiles m a xs ∧ Tiles m (a + span xs) ys := by
  induction xs generalizing a with
  | nil => simp
  | cons p xs ih => simp only [List.cons_append, tiles_cons, ih, span_cons, Nat.add_assoc, and_assoc]

lemma Tiles.whole {m : Memory} {a : Nat} {blocks : List Piece} (h : Tiles m a blocks) {p : Piece}
    (hp : p ∈ blocks) : p.Whole := by
  obtain ⟨pre, post, rfl⟩ := List.append_of_mem hp
  exact (tiles_append.mp h).2.1

lemma Tiles.span_mod {m : Memory} {a : Nat} {blocks : List Piece} (h : Tiles m a blocks) :
    span blocks % blockUnit = 0 := by
  induction blocks generalizing a with
  | nil => rfl
  | cons p rest ih =>
    have hp := h.1.2
    have hrest := ih h.2.2.2
    simp only [blockUnit] at hp hrest ⊢
    simp only [span_cons]
    omega

lemma taken_pairwise (a : Nat) (blocks : List Piece) :
    (taken a blocks).Pairwise fun b c => b.1 + b.2 ≤ c.1 := by
  induction blocks generalizing a with
  | nil => exact List.Pairwise.nil
  | cons p rest ih =>
    obtain ⟨n, status⟩ := p
    cases status with
    | free => exact ih (a + n)
    | allocated =>
      refine List.pairwise_cons.mpr ⟨fun c hc => ?_, ih (a + n)⟩
      exact (le_of_mem_taken (show (c.1, c.2) ∈ _ from hc)).1

lemma taken_disjoint {a : Nat} {blocks : List Piece} {b c : Nat × Nat} (hb : b ∈ taken a blocks)
    (hc : c ∈ taken a blocks) (hne : b ≠ c) : b.1 + b.2 ≤ c.1 ∨ c.1 + c.2 ≤ b.1 := by
  have hpair : (taken a blocks).Pairwise fun b c => b.1 + b.2 ≤ c.1 ∨ c.1 + c.2 ≤ b.1 :=
    (taken_pairwise a blocks).imp Or.inl
  have : Std.Symm fun b c : Nat × Nat => b.1 + b.2 ≤ c.1 ∨ c.1 + c.2 ≤ b.1 :=
    ⟨fun _ _ h => Or.symm h⟩
  exact hpair.forall hb hc hne

lemma taken_whole {m : Memory} {a : Nat} {blocks : List Piece} {b : Nat × Nat}
    (h : Tiles m a blocks) (hb : b ∈ taken a blocks) : Piece.Whole ⟨b.2, .allocated⟩ := by
  obtain ⟨pre, post, rfl, _⟩ := mem_taken_iff.mp (show (b.1, b.2) ∈ _ from hb)
  exact h.whole (by simp)

lemma taken_nodup {m : Memory} {a : Nat} {blocks : List Piece} (h : Tiles m a blocks) :
    ((taken a blocks).map Prod.fst).Nodup := by
  refine List.pairwise_map.mpr ((taken_pairwise a blocks).imp_of_mem ?_)
  intro b c hb _ hle
  have hpos := (taken_whole h hb).1
  simp only at hpos
  omega

/-- A chain depends only on the bytes between its ends. -/
lemma Tiles.congr {m m' : Memory} {a : Nat} {blocks : List Piece} (h : Tiles m a blocks)
    (hm : ∀ b, a ≤ b → b < a + span blocks → m'.read b = m.read b) : Tiles m' a blocks := by
  induction blocks generalizing a with
  | nil => trivial
  | cons p rest ih =>
    obtain ⟨hp, hhead, hfoot, hrest⟩ := h
    have hle := hp.le
    simp only [span_cons] at hm
    simp only [minBlockSize] at hle
    refine ⟨hp, ?_, ?_, ih hrest fun b hb hb' => hm b (by omega) (by omega)⟩
    · rw [← hhead]
      exact Memory.word_congr fun b hb hb' => hm b hb (by simp only [wordSize] at hb'; omega)
    · rw [← hfoot]
      exact Memory.word_congr fun b hb hb' =>
        hm b (by simp only [wordSize] at hb; omega) (by simp only [wordSize] at hb hb'; omega)

/-- Sizes and statuses are read off the headers: a chain with the same headers goes on the same way,
as far as the first one goes. -/
lemma Tiles.continued {m m' : Memory} {a : Nat} {xs ys : List Piece} (hx : Tiles m a xs)
    (hy : Tiles m' a ys) (hheads : ∀ b ∈ heads a xs, m'.word b = m.word b)
    (hle : span xs ≤ span ys) : ∃ rest, ys = xs ++ rest := by
  induction xs generalizing a ys with
  | nil => exact ⟨ys, rfl⟩
  | cons p xs ih =>
    cases ys with
    | nil =>
      have := hx.1.1
      simp only [span_nil, span_cons] at hle
      omega
    | cons q ys =>
      have hbits : p.bits = q.bits :=
        hx.2.1.symm.trans ((hheads a List.mem_cons_self).symm.trans hy.2.1)
      have hsize : p.size = q.size := by rw [← hx.1.tag_size, ← hy.1.tag_size, hbits]
      have hstatus : p.status = q.status := by
        have h := hx.1.tag_status
        rw [hbits, hy.1.tag_status] at h
        exact (Option.some.inj h).symm
      have hpq : p = q := by
        cases p
        cases q
        simp only at hsize hstatus
        rw [hsize, hstatus]
      subst hpq
      obtain ⟨rest, rfl⟩ := ih hx.2.2.2 hy.2.2.2
        (fun b hb => hheads b (List.mem_cons_of_mem _ hb))
        (by simp only [span_cons] at hle; omega)
      exact ⟨rest, rfl⟩

/-- Only one list of pieces fits a memory. -/
lemma Tiles.unique {m : Memory} {a : Nat} {xs ys : List Piece} (hx : Tiles m a xs)
    (hy : Tiles m a ys) (hs : span xs = span ys) : xs = ys := by
  obtain ⟨rest, rfl⟩ := hx.continued hy (fun _ _ => rfl) (Nat.le_of_eq hs)
  cases rest with
  | nil => rw [List.append_nil]
  | cons q rest =>
    have := (hy.whole (p := q) (by simp)).1
    simp only [span_append, span_cons] at hs
    omega

namespace Memory

/-- Two memories hold the same bytes except from `lo` up to `hi`. -/
def SameOutside (lo hi : Nat) (m m' : Memory) : Prop :=
  ∀ a, a < lo ∨ hi ≤ a → m'.read a = m.read a

/-- The memory with both tags of a block written. -/
def mark (m : Memory) (block : Nat) (p : Piece) : Memory :=
  (m.setWord block p.bits).setWord (block + p.size - wordSize) p.bits

lemma SameOutside.refl (lo hi : Nat) (m : Memory) : SameOutside lo hi m m :=
  fun _ _ => rfl

lemma SameOutside.trans {lo hi : Nat} {m m' m'' : Memory} (h : SameOutside lo hi m m')
    (h' : SameOutside lo hi m' m'') : SameOutside lo hi m m'' :=
  fun a ha => (h' a ha).trans (h a ha)

lemma SameOutside.mono {lo lo' hi hi' : Nat} {m m' : Memory} (h : SameOutside lo hi m m')
    (hlo : lo' ≤ lo) (hhi : hi ≤ hi') : SameOutside lo' hi' m m' :=
  fun a ha => h a (by omega)

lemma read_mark {m : Memory} {block a : Nat} {p : Piece}
    (hhead : ¬(block ≤ a ∧ a < block + wordSize))
    (hfoot : ¬(block + p.size - wordSize ≤ a ∧ a < block + p.size - wordSize + wordSize)) :
    (m.mark block p).read a = m.read a := by
  rw [mark, read_setWord, if_neg hfoot, read_setWord, if_neg hhead]

lemma mark_sameOutside (block : Nat) {p : Piece} (hp : p.Whole) (m : Memory) :
    SameOutside block (block + p.size) m (m.mark block p) := by
  intro a ha
  have hle := hp.le
  simp only [minBlockSize] at hle
  exact read_mark (by simp only [wordSize]; omega) (by simp only [wordSize]; omega)

lemma tiles_mark (block : Nat) {p : Piece} (hp : p.Whole) (hlt : p.bits < Word.limit)
    (m : Memory) : Tiles (m.mark block p) block [p] := by
  have hle := hp.le
  simp only [minBlockSize] at hle
  refine ⟨hp, ?_, ?_, trivial⟩
  · rw [mark, word_setWord_of_disjoint (Or.inl (by simp only [wordSize]; omega)), word_setWord,
      Nat.mod_eq_of_lt hlt]
  · rw [mark, word_setWord, Nat.mod_eq_of_lt hlt]

end Memory

/-- What a tag before a block at the end of `blocks` holds. -/
def lastBits (blocks : List Piece) : Nat :=
  (blocks.getLast?.map Piece.bits).getD Tag.sentinel.bits

/-- What the tag after a block in front of `blocks` holds. -/
def headBits (blocks : List Piece) : Nat :=
  (blocks.head?.map Piece.bits).getD Tag.sentinel.bits

lemma headBits_isFree {blocks : List Piece} (h : ∀ p ∈ blocks, p.Whole) :
    Tag.isFree ⟨headBits blocks⟩ = .ok (decide (0 < freeHead blocks)) := by
  rcases blocks with _ | ⟨⟨n, status⟩, rest⟩
  · rfl
  · have hp := h _ List.mem_cons_self
    have hfree := hp.tag_isFree
    simp only [headBits, List.head?_cons, Option.map_some, Option.getD_some]
    rw [hfree]
    have hpos := hp.1
    simp only at hpos
    cases status <;> simp [hpos]

lemma lastBits_isFree {blocks : List Piece} (h : ∀ p ∈ blocks, p.Whole) :
    Tag.isFree ⟨lastBits blocks⟩ = .ok (decide (0 < freeTail blocks)) := by
  have hwhole : ∀ p ∈ blocks.reverse, p.Whole := fun p hp => h p (List.mem_reverse.mp hp)
  have hrev := headBits_isFree hwhole
  unfold headBits at hrev
  rw [List.head?_reverse] at hrev
  exact hrev

lemma lastBits_size {blocks : List Piece} (h : ∀ p ∈ blocks, p.Whole) (hfree : 0 < freeTail blocks) :
    Tag.size ⟨lastBits blocks⟩ = freeTail blocks := by
  rcases tail_cases blocks with ⟨h0, _⟩ | hb
  · omega
  · have hp : Piece.Whole ⟨freeTail blocks, .free⟩ := h _ (by rw [hb]; simp)
    have hsize := hp.tag_size
    have hlast : lastBits blocks = Piece.bits ⟨freeTail blocks, .free⟩ := by
      conv_lhs => rw [hb]
      simp [lastBits]
    rw [hlast, hsize]

lemma headBits_size {blocks : List Piece} (h : ∀ p ∈ blocks, p.Whole) (hfree : 0 < freeHead blocks) :
    Tag.size ⟨headBits blocks⟩ = freeHead blocks := by
  rcases head_cases blocks with ⟨h0, _⟩ | hb
  · omega
  · have hp : Piece.Whole ⟨freeHead blocks, .free⟩ := h _ (by rw [hb]; simp)
    have hsize := hp.tag_size
    have hhead : headBits blocks = Piece.bits ⟨freeHead blocks, .free⟩ := by
      conv_lhs => rw [hb]
      rfl
    rw [hhead, hsize]

/-- The memory holds a chain between two sentinels. -/
structure Chained (m : Memory) (start : Nat) (blocks : List Piece) : Prop where
  before : m.word (start - wordSize) = Tag.sentinel.bits
  tiles : Tiles m start blocks
  after : m.word (start + span blocks) = Tag.sentinel.bits

instance (m : Memory) (start : Nat) (blocks : List Piece) : Decidable (Chained m start blocks) :=
  decidable_of_iff (m.word (start - wordSize) = Tag.sentinel.bits ∧ Tiles m start blocks ∧
    m.word (start + span blocks) = Tag.sentinel.bits)
    ⟨fun h => ⟨h.1, h.2.1, h.2.2⟩, fun h => ⟨h.before, h.tiles, h.after⟩⟩

namespace Chained

variable {m m' : Memory} {start : Nat} {pre post : List Piece} {p : Piece}

lemma word_head (h : Chained m start (pre ++ p :: post)) : m.word (start + span pre) = p.bits :=
  (tiles_append.mp h.tiles).2.2.1

lemma whole (h : Chained m start (pre ++ p :: post)) : p.Whole :=
  (tiles_append.mp h.tiles).2.1

lemma word_before (h : Chained m start (pre ++ post)) :
    m.word (start + span pre - wordSize) = lastBits pre := by
  rcases List.eq_nil_or_concat' pre with rfl | ⟨init, p, rfl⟩
  · exact h.before
  · have hp := (tiles_append.mp (tiles_append.mp h.tiles).1).2
    simp only [span_append, span_cons, span_nil, Nat.add_zero, lastBits, List.getLast?_concat,
      Option.map_some, Option.getD_some]
    rw [← hp.2.2.1, Nat.add_assoc]

lemma word_after (h : Chained m start (pre ++ post)) :
    m.word (start + span pre) = headBits post := by
  cases post with
  | nil =>
    have hafter := h.after
    rw [List.append_nil] at hafter
    exact hafter
  | cons p post => exact h.word_head

/-- Pieces in the middle of a chain give way to others that take the same bytes. -/
lemma replace {mid mid' : List Piece} (h : Chained m start (pre ++ mid ++ post))
    (hstart : wordSize ≤ start) (hspan : span mid' = span mid)
    (hmid : Tiles m' (start + span pre) mid')
    (hm : Memory.SameOutside (start + span pre) (start + span pre + span mid) m m') :
    Chained m' start (pre ++ mid' ++ post) := by
  have hpre := (tiles_append.mp (tiles_append.mp h.tiles).1).1
  have hpost := (tiles_append.mp h.tiles).2
  have hbefore := h.before
  have hafter := h.after
  simp only [span_append, ← Nat.add_assoc] at hpost hafter
  refine ⟨?_, ?_, ?_⟩
  · rw [← hbefore]
    exact Memory.word_congr fun b _ hb => hm b (Or.inl (by omega))
  · refine tiles_append.mpr ⟨tiles_append.mpr ⟨hpre.congr fun b _ hb => hm b (Or.inl hb), hmid⟩, ?_⟩
    simp only [span_append, hspan, ← Nat.add_assoc]
    exact hpost.congr fun b hb _ => hm b (Or.inr hb)
  · simp only [span_append, hspan, ← Nat.add_assoc]
    rw [← hafter]
    exact Memory.word_congr fun b hb _ => hm b (Or.inr (by omega))

/-- The end of a chain gives way to other pieces and a sentinel after them. -/
lemma endWith (tail : List Piece) (h : Chained m start (pre ++ post)) (hstart : wordSize ≤ start)
    (hm : ∀ a, start - wordSize ≤ a → a < start + span pre → m'.read a = m.read a)
    (htail : Tiles m' (start + span pre) tail)
    (hafter : m'.word (start + span pre + span tail) = Tag.sentinel.bits) :
    Chained m' start (pre ++ tail) := by
  have hpre := (tiles_append.mp h.tiles).1
  refine ⟨?_, ?_, ?_⟩
  · rw [← h.before]
    exact Memory.word_congr fun a ha ha' => hm a ha (by omega)
  · exact tiles_append.mpr ⟨hpre.congr fun a ha ha' => hm a (by omega) ha', htail⟩
  · rw [span_append, ← Nat.add_assoc]
    exact hafter

/-- The end of a chain gives way to what is left of a block and a new sentinel. -/
lemma endWithRemnant {keep : Nat} (h : Chained m start (pre ++ post)) (hstart : wordSize ≤ start)
    (hm : ∀ a, start - wordSize ≤ a → a < start + span pre → m'.read a = m.read a)
    (htiles : Tiles m' (start + span pre) (remnant keep)) :
    Chained (m'.setWord (start + span pre + keep) Tag.sentinel.bits) start
      (pre ++ remnant keep) := by
  refine h.endWith _ hstart ?_ ?_ ?_
  · intro a ha ha'
    rw [Memory.read_setWord, if_neg (by omega), hm a ha ha']
  · refine htiles.congr fun a _ ha => ?_
    rw [span_remnant] at ha
    rw [Memory.read_setWord, if_neg (by omega)]
  · rw [span_remnant, Memory.word_setWord]
    rfl

lemma congr (h : Chained m start pre) (hstart : wordSize ≤ start)
    (hm : ∀ a, start - wordSize ≤ a → a < start + span pre + wordSize → m'.read a = m.read a) :
    Chained m' start pre := by
  have h' : Chained m start (pre ++ []) := by rwa [List.append_nil]
  have hend := h'.endWith [] hstart (fun a ha ha' => hm a ha (by omega)) trivial ?_
  · rwa [List.append_nil] at hend
  · rw [span_nil, Nat.add_zero, ← h.after]
    exact Memory.word_congr fun a ha ha' => hm a (by omega) ha'

end Chained
end BlockHeap
