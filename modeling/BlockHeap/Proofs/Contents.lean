import BlockHeap.Proofs.Astray
import BlockHeap.Proofs.Ownership

/-!
# What a payload holds

Resizing keeps the bytes of a payload, as many as the old block has room for and the new size asks
for. In place, tags are written only where they are outside of these bytes, and what is given back
lies behind them. When the payload moves, the bytes survive allocating the new block, are copied,
and survive freeing the old one. `h.Carries h' a b count` says where bytes went from one arena to
the next.
-/

namespace BlockHeap

variable {σ : Type}

/-- The `count` bytes from `a` on are those from `b` on afterwards. -/
def Arena.Carries (h h' : Arena σ) (a b count : Nat) : Prop :=
  ∀ i < count, h'.memory.read (b + i) = h.memory.read (a + i)

namespace Arena

variable {h h₁ h' g g' : Arena σ} {a b c count count' n : Nat}

lemma Carries.refl (h : Arena σ) (a count : Nat) : h.Carries h a a count :=
  fun _ _ => rfl

lemma Carries.trans (hx : h.Carries h₁ a b count) (hy : h₁.Carries h' b c count) :
    h.Carries h' a c count :=
  fun i hi => (hy i hi).trans (hx i hi)

lemma Carries.mono (hx : h.Carries h' a b count) (hle : count' ≤ count) : h.Carries h' a b count' :=
  fun i hi => hx i (Nat.lt_of_lt_of_le hi hle)

/-- Bytes of a block that is spared stay where they are. -/
lemma Spares.carries {xs : List (Nat × Nat)} {size : Nat} (hs : h.Spares h' xs)
    (hx : (b, size) ∈ xs) (hlow : b ≤ a) (hhigh : a + count ≤ b + size) :
    h.Carries h' a a count :=
  fun i hi => hs _ hx (a + i) (by simp only; omega) (by simp only; omega)

lemma copy_carries (h : Arena σ) (a b count : Nat) :
    h.Carries (h.withMemory (h.memory.copy a b count)) a b count := by
  intro i hi
  rw [withMemory_memory, Memory.read_copy, if_pos (by omega), Nat.add_sub_cancel_left, Nat.add_comm]

variable [Segment σ] {P : σ → Prop} {pre post : List Piece} {size new k t total : Nat}
  {status : Status} {u : Unit}

/-- Bytes that neither tag of a block lies in survive marking it. -/
lemma mark_carries (hm : Action.Yields (Block.mark c n status) g u g') (hroom : wordSize ≤ c + n)
    (hlt : c + n < Word.limit) (hhead : a + count ≤ c ∨ c + wordSize ≤ a)
    (hfoot : a + count + wordSize ≤ c + n ∨ c + n ≤ a) : g.Carries g' a a count := by
  obtain ⟨_, m, rfl, rfl⟩ := mark_cases hm
  intro i hi
  rw [withMemory_memory, Block.footer_eq hroom hlt, Memory.read_setWord, if_neg (by omega),
    Memory.read_setWord, if_neg (by omega)]

/-- Carving a block down leaves what is between the tags of the part that stays. -/
lemma carve_carries (hsize : Action.Yields (Block.size b) g total g) (hlt : b + total < Word.limit)
    (hroom : 2 * wordSize ≤ new) (hle : new ≤ total)
    (hm : Action.Yields (carve b new) g u g') :
    g.Carries g' (b + wordSize) (b + wordSize) (new - 2 * wordSize) := by
  have hword : wordSize = 8 := rfl
  obtain ⟨rfl, _⟩ := hsize.unique (Action.Yields.size g b)
  rcases carve_cases hm with ⟨_, g₁, hhead, hrest⟩ | ⟨_, hwhole⟩
  · rw [Word.forward_of_lt (by omega)] at hrest
    have hcut : g.Carries g₁ (b + wordSize) (b + wordSize) (new - 2 * wordSize) :=
      mark_carries hhead (by omega) (by omega) (by omega) (by omega)
    exact hcut.trans (mark_carries hrest (by omega) (by omega) (by omega) (by omega))
  · exact mark_carries hwhole (by omega) hlt (by omega) (by omega)

/-- Taking the block after it in leaves all that was between the tags of a block. -/
lemma growInPlace_carries
    (hs : h.Sound P (pre ++ ⟨size, .allocated⟩ :: ⟨k, .free⟩ :: post)) (hmore : size ≤ new)
    (hle : new ≤ size + k)
    (hm : Action.Yields (growInPlace (h.start + span pre) (size + k) new) h u h') :
    h.Carries h' (h.start + span pre + wordSize) (h.start + span pre + wordSize)
      (size - 2 * wordSize) := by
  have hword : wordSize = 8 := rfl
  have hl : h.Laid (pre ++ [⟨size, .allocated⟩, ⟨k, .free⟩] ++ post) := by simpa using hs.toLaid
  have hold := hs.toLaid.whole
  have hmin := hold.le
  have hblock := hs.toLaid.block_le
  have hlimit := hs.toLaid.stop_lt_limit
  have hunit := (hs.chained.tiles.whole (p := ⟨k, .free⟩) (by simp)).2
  have htotal : Piece.Whole ⟨size + k, .allocated⟩ := by
    have hsize := hold.2
    simp only [blockUnit, minBlockSize] at hsize hunit hmin
    exact ⟨by simp only; omega, by simp only [blockUnit]; omega⟩
  simp only [minBlockSize, span_cons] at hmin hblock
  unfold growInPlace at hm
  have hm₁ := (Action.Yields.note _ _ _).step_iff.mp hm
  obtain ⟨_, g₁, hmark, hm₂⟩ := hm₁.of_bind
  have hmarked : h.Carries g₁ (h.start + span pre + wordSize) (h.start + span pre + wordSize)
      (size - 2 * wordSize) := mark_carries hmark (by omega) (by omega) (by omega) (by omega)
  obtain ⟨m, hruns, hlaid, _⟩ := hl.mark_runs ⟨size + k, .allocated⟩ htotal (by simp)
  obtain ⟨_, rfl⟩ := hmark.unique hruns.yields
  obtain ⟨_, g₂, hpull, hcarve⟩ := hm₂.of_bind
  have hpulled := (pullCursor_runs (h := h.withMemory m) (h.start + span pre) (size + k)
    (by omega)).yields
  obtain ⟨_, rfl⟩ := hpull.unique hpulled
  have hlaid' : ((h.withMemory m).withPlacement ((h.withMemory m).placement.pull
      (h.start + span pre) (size + k))).Laid (pre ++ ⟨size + k, .allocated⟩ :: post) := by
    simpa using hlaid.withPlacement _
  have hlow : h.start + span pre + (size + k) < Word.limit := by omega
  have hcarved := carve_carries hlaid'.size_runs.yields hlow (by omega) hle hcarve
  exact hmarked.trans (hcarved.mono (by omega))

/-- Cutting a block down leaves what is between the tags of the part that stays. -/
lemma shrinkInPlace_carries (hP : Segment.Exact P) (hs : h.Sound P (pre ++ ⟨size, status⟩ :: post))
    (hpos : 0 < new) (hunit : new % blockUnit = 0) (hlt : new < size)
    (hm : Action.Yields (shrinkInPlace (h.start + span pre) size new) h u h') :
    h.Carries h' (h.start + span pre + wordSize) (h.start + span pre + wordSize)
      (new - 2 * wordSize) := by
  have hword : wordSize = 8 := rfl
  have hold := hs.toLaid.whole.2
  have hblock := hs.toLaid.block_le
  have hlimit := hs.toLaid.stop_lt_limit
  simp only [blockUnit] at hold hunit hblock
  obtain ⟨m₁, m₂, hmark₁, hmark₂, hlaid, _⟩ := hs.toLaid.split_runs ⟨new, .allocated⟩
    ⟨size - new, .allocated⟩ ⟨hpos, hunit⟩
    ⟨by simp only; omega, by simp only [blockUnit]; omega⟩ (by simp only; omega)
  unfold shrinkInPlace at hm
  have hm₁ := (Action.Yields.note _ _ _).step_iff.mp hm
  obtain ⟨_, g₁, hhead, hm₂⟩ := hm₁.of_bind
  have hcut : h.Carries g₁ (h.start + span pre + wordSize) (h.start + span pre + wordSize)
      (new - 2 * wordSize) := mark_carries hhead (by omega) (by omega) (by omega) (by omega)
  obtain ⟨_, rfl⟩ := hhead.unique hmark₁.yields
  rw [Word.forward_of_lt (by omega)] at hm₂
  obtain ⟨_, g₂, hrest, hrelease⟩ := hm₂.of_bind
  have hsplit := hcut.trans
    (mark_carries hrest (by omega) (by omega) (by omega) (by omega))
  obtain ⟨_, rfl⟩ := hrest.unique hmark₂.yields
  obtain ⟨h₂, _, _, ⟨rest, hl, hlost, _⟩, _⟩ := release_trades hP (hs.halved hlt hlaid)
  have hat : h.start + span (pre ++ [⟨new, .allocated⟩]) = h.start + span pre + new :=
    span_step _ _ _
  simp only [withMemory_start, hat] at hl hlost
  obtain ⟨_, rfl⟩ := hrelease.unique hl.runs.yields
  have hkept : (h.start + span pre, new) ∈ rest :=
    (perm_of_halved hlt hlost).mem_iff.mpr List.mem_cons_self
  exact hsplit.trans (hl.spares.carries hkept (by omega) (by omega))

/-- Moving a payload takes what was in it along, to a block apart from the one that it had. -/
lemma move_carries (hP : Segment.Exact P) (hs : h.Sound P (pre ++ ⟨size, .allocated⟩ :: post))
    (hm : Action.Yields (move (h.start + span pre + wordSize) size n) h (some t) h') :
    h.Carries h' (h.start + span pre + wordSize) t (min (size - 2 * wordSize) n) ∧
      (t - wordSize + Block.leastSize n ≤ h.start + span pre ∨
        h.start + span pre + size ≤ t - wordSize) := by
  have hword : wordSize = 8 := rfl
  have hroom := Block.le_leastSize n
  rcases move_cases hm with ⟨hnone, _⟩ | ⟨t', h₁, heq, ha, _, hfree⟩
  · exact absurd hnone nofun
  obtain rfl := Option.some.inj heq
  obtain ⟨r, h₂, asked, blocks₁, ⟨kept, hl₁, hkept, htaken₁⟩, _⟩ := allocate_trades hP hs n
  obtain ⟨rfl, rfl⟩ := ha.unique hl₁.runs.yields
  have hsource : (h.start + span pre, size) ∈ kept :=
    hkept.mem_iff.mp (mem_taken_iff.mpr ⟨pre, post, rfl, rfl⟩)
  have hstart := hl₁.akin.start
  have htaken := htaken₁
  rw [← hstart] at htaken
  obtain ⟨hlow, htarget⟩ := hl₁.sound.le_handed htaken
  have hapart := hl₁.sound.handed_apart htaken hsource
  obtain ⟨pre₁, post₁, rfl, hpre₁, hs₂, _⟩ := hl₁.copied hkept htaken₁
  obtain ⟨h₃, _, _, ⟨rest, hl₂, hlost, _⟩, _⟩ := free_trades hP hs₂
  simp only [withMemory_start, hstart, hpre₁] at hl₂ hlost
  obtain ⟨_, rfl⟩ := hfree.unique hl₂.runs.yields
  rw [hstart] at htarget
  have hspared : (t - wordSize, Block.leastSize n) ∈ rest := by
    rcases List.mem_cons.mp (hlost.mem_iff.mp htarget) with hsame | hrest
    · have hat := congrArg Prod.fst hsame
      simp only at hat
      omega
    · exact hrest
  have hallocated : h.Carries h₁ (h.start + span pre + wordSize) (h.start + span pre + wordSize)
      (min (size - 2 * wordSize) n) := hl₁.spares.carries hsource (by omega) (by omega)
  have hcopied := hallocated.trans (copy_carries h₁ _ t _)
  exact ⟨hcopied.trans (hl₂.spares.carries hspared (by omega) (by omega)), hapart⟩

/-- A payload that its block and the free block after it have no room for is moved. -/
lemma resize_moves {r : Option Nat} (hP : Segment.Exact P)
    (hs : h.Sound P (pre ++ ⟨size, .allocated⟩ :: post)) (hn : 0 < n)
    (hsized : Block.sizeFor n = some new) (htight : size + freeHead post < new)
    (hr : Action.Yields (resize (some (h.start + span pre + wordSize)) n) h r h') :
    Action.Yields (move (h.start + span pre + wordSize) size n) h r h' := by
  obtain ⟨r₁, h₁, asked, _, ⟨_, hl, _, _⟩, _⟩ := move_trades hP hs n
  have hruns : Action.Runs (resize (some (h.start + span pre + wordSize)) n) h r₁ h₁ asked := by
    refine hs.toLaid.resize_asks hn hsized (by omega) ?_
    rw [if_neg (by omega)]
    exact hl.runs
  obtain ⟨rfl, rfl⟩ := hr.unique hruns.yields
  exact hl.runs.yields

/-- A payload that the free block after its own has room for grows into that. -/
lemma resize_grows {r : Option Nat}
    (hs : h.Sound P (pre ++ ⟨size, .allocated⟩ :: ⟨k, .free⟩ :: post)) (hn : 0 < n)
    (hsized : Block.sizeFor n = some new) (hmore : size < new) (hfits : new ≤ size + k)
    (hr : Action.Yields (resize (some (h.start + span pre + wordSize)) n) h r h') :
    r = some (h.start + span pre + wordSize) ∧
      Action.Yields (growInPlace (h.start + span pre) (size + k) new) h () h' := by
  obtain ⟨hunit, hroom, _, _⟩ := Block.sizeFor_spec hsized
  simp only [wordSize] at hroom
  obtain ⟨h₁, ⟨_, hl, _, _⟩, _⟩ := growInPlace_trades hs (by omega) hunit hfits
  have hruns : Action.Runs (resize (some (h.start + span pre + wordSize)) n) h
      (some (h.start + span pre + wordSize)) h₁ [] := by
    refine hs.toLaid.resize_asks hn hsized hmore ?_
    rw [freeHead_free, if_pos ⟨by omega, hfits⟩]
    exact hl.runs.thenQuiet (Action.Runs.pure _ _)
  obtain ⟨rfl, rfl⟩ := hr.unique hruns.yields
  exact ⟨rfl, hl.runs.yields⟩

/-- Resizing a payload keeps its bytes, at the same address or in a block apart from the one that it
had. -/
theorem resize_carries (hP : Segment.Exact P) (hs : h.Sound P (pre ++ ⟨size, .allocated⟩ :: post))
    (hn : 0 < n)
    (hr : Action.Yields (resize (some (h.start + span pre + wordSize)) n) h (some t) h') :
    h.Carries h' (h.start + span pre + wordSize) t (min (size - 2 * wordSize) n) ∧
      (t = h.start + span pre + wordSize ∨ t - wordSize + Block.leastSize n ≤ h.start + span pre ∨
        h.start + span pre + size ≤ t - wordSize) := by
  have hword : wordSize = 8 := rfl
  cases hsized : Block.sizeFor n with
  | none =>
    obtain ⟨hnone, _⟩ := hr.unique (hs.toLaid.resize_unsized hn hsized).yields
    exact absurd hnone nofun
  | some new =>
    obtain ⟨hunit, hroom, _, _⟩ := Block.sizeFor_spec hsized
    rcases Nat.lt_trichotomy new size with hlt | rfl | hgt
    · obtain ⟨h₁, asked, _, ⟨_, hl, _, _⟩, _⟩ := shrinkInPlace_trades hP hs (by omega) hunit hlt
      obtain ⟨hsame, rfl⟩ := hr.unique (hs.toLaid.resize_cut hn hsized hlt hl.runs).yields
      obtain rfl := Option.some.inj hsame
      have hcarried := shrinkInPlace_carries hP hs (by omega) hunit hlt hl.runs.yields
      exact ⟨hcarried.mono (by omega), Or.inl rfl⟩
    · obtain ⟨hsame, rfl⟩ := hr.unique (hs.toLaid.resize_same hn hsized).yields
      obtain rfl := Option.some.inj hsame
      exact ⟨Carries.refl _ _ _, Or.inl rfl⟩
    · by_cases hfits : new ≤ size + freeHead post
      · obtain ⟨k, rest, rfl⟩ : ∃ k rest, post = ⟨k, .free⟩ :: rest := by
          rcases head_cases post with ⟨hnone, _⟩ | hpost
          · omega
          · exact ⟨_, _, hpost⟩
        obtain ⟨hsame, hgrown⟩ := resize_grows hs hn hsized hgt hfits hr
        obtain rfl := Option.some.inj hsame
        have hcarried := growInPlace_carries hs hgt.le hfits hgrown
        exact ⟨hcarried.mono (Nat.min_le_left _ _), Or.inl rfl⟩
      · have hmoved := resize_moves hP hs hn hsized (by omega) hr
        exact (move_carries hP hs hmoved).imp_right Or.inr

end Arena

variable [Segment σ] {P : σ → Prop} {segment : σ} {memory : Memory} {config : Config} {h : Heap σ}
  {live : List Lease}

/-- Over an exact provider, resizing a live payload keeps its bytes, as many as its old block has
room for and the new size asks for. The payload that it answers has an allocated block of the least
size; if it is another one, no allocated block is left where the old one was. -/
theorem Reach.resize_keeps (hP : Segment.Exact P) (hsegment : P segment)
    (hr : Reach segment memory config h live) {l : Lease} (hl : l ∈ live) {n q : Nat} (hn : 0 < n)
    (hanswer : (h.serve (.resize (some l.payload) n)).result = .ok (some q)) :
    let h' := (h.serve (.resize (some l.payload) n)).state
    ∃ blocks blocks' old new, h.arena.Formed blocks ∧ h'.arena.Formed blocks' ∧
      (l.payload - wordSize, old) ∈ taken h.arena.start blocks ∧
      IsLeast {k | l.size + 2 * wordSize ≤ k ∧ blockUnit ∣ k} old ∧
      (∀ i < min (old - 2 * wordSize) n,
        h'.arena.memory.read (q + i) = h.arena.memory.read (l.payload + i)) ∧
      (q - wordSize, new) ∈ taken h'.arena.start blocks' ∧
      IsLeast {k | n + 2 * wordSize ≤ k ∧ blockUnit ∣ k} new ∧
      (q ≠ l.payload → ∀ b ∈ taken h'.arena.start blocks',
        b.1 + b.2 ≤ l.payload - wordSize ∨ l.payload - wordSize + old ≤ b.1) := by
  intro h'
  obtain ⟨blocks, hh⟩ := hr.held hP hsegment
  have hold := hh.mem_taken hl
  obtain ⟨pre, post, rfl, hat⟩ := hh.split hl
  rw [Lease.block_eq hat] at hold
  obtain ⟨r, h₁, asked, blocks', ⟨rest, htrade, hlost, hgained⟩, _⟩ :=
    Arena.resize_trades hP hh.sound hn
  obtain ⟨hresult, hstate⟩ := h.serve_eq (.resize (some l.payload) n)
  rw [← hat] at htrade
  obtain rfl := Except.ok.inj (htrade.runs.result.symm.trans (hresult.symm.trans hanswer))
  have hafter : h'.arena = h₁ := (congrArg Heap.arena hstate).trans htrade.runs.arena
  have hstart := htrade.akin.start
  have hyields := htrade.runs.yields
  rw [hat] at hyields
  obtain ⟨hcarried, hapart⟩ := Arena.resize_carries hP hh.sound hn hyields
  have hothers := hh.sound.others hlost
  rw [hafter, hat, Nat.add_sub_cancel]
  refine ⟨_, blocks', Block.leastSize l.size, Block.leastSize n, hh.sound.formed,
    htrade.sound.formed, hold, Block.leastSize_isLeast l.size, hcarried, ?_,
    Block.leastSize_isLeast n, fun hne b hb => ?_⟩
  · rw [hstart]
    exact hgained.mem_iff.mpr List.mem_cons_self
  · rw [hstart] at hb
    rcases List.mem_cons.mp (hgained.mem_iff.mp hb) with rfl | hb
    · exact hapart.resolve_left hne
    · obtain ⟨hthere, hother⟩ := hothers b hb
      exact taken_disjoint hthere hold hother

/-- A payload is filled and then moves behind another one: its bytes are those that were written,
and nothing is allocated where it was. -/
theorem Reach.resize_keeps_moved : ∃ h : Heap (Reservation .common),
    Heap.session (⟨0x100000, 65536, 0, 4096⟩ : Reservation .common) Reservation.blank Config.standard
      [.allocate 100, .allocate 40] = some (h, [⟨0x1000a8, 40⟩, ⟨0x100028, 100⟩]) ∧
    let filled : Heap (Reservation .common) :=
      { h with arena := h.arena.write 0x100028 100 UInt8.ofNat }
    let moved := filled.serve (.resize (some 0x100028) 300)
    moved.result = .ok (some 0x1000e8) ∧
    ∃ blocks, moved.state.arena.Formed blocks ∧
      (∀ i < 100, moved.state.arena.memory.read (0x1000e8 + i) = UInt8.ofNat i) ∧
      ∀ b ∈ taken moved.state.arena.start blocks, b.1 + b.2 ≤ 0x100020 ∨ 0x100020 + 116 ≤ b.1 := by
  have hplayed : (Heap.session (⟨0x100000, 65536, 0, 4096⟩ : Reservation .common) Reservation.blank
      Config.standard [.allocate 100, .allocate 40]).map (fun s =>
        (s.2, s.1.arena.usable 0x100028, (Heap.serve { s.1 with
          arena := s.1.arena.write 0x100028 100 UInt8.ofNat }
            (.resize (some 0x100028) 300)).result.toOption)) =
      some ([⟨0x1000a8, 40⟩, ⟨0x100028, 100⟩], 112, some (some 0x1000e8)) := by
    decide +kernel
  obtain ⟨⟨h, live⟩, hs, hfacts⟩ := Option.map_eq_some_iff.mp hplayed
  obtain ⟨rfl, hfacts⟩ := Prod.mk.inj hfacts
  obtain ⟨husable, hanswer⟩ := Prod.mk.inj hfacts
  have hsegment : (⟨0x100000, 65536, 0, 4096⟩ : Reservation .common).Paged :=
    Reservation.paged_common (by decide)
  have hfilled := (Reach.of_session hs).write (l := ⟨0x100028, 100⟩) 0x100028 100 UInt8.ofNat
    (by simp) (Nat.le_refl _) (by rw [husable]; decide)
  obtain ⟨_, blocks, old, _, _, hformed, _, hold, hsame, _, _, hfreed⟩ :=
    Reach.resize_keeps Reservation.exact_paged hsegment hfilled (l := ⟨0x100028, 100⟩) (by simp)
      (n := 300) (by decide) (ok_of_toOption hanswer)
  have hle : 116 ≤ old := hold.1.1
  refine ⟨h, hs, ok_of_toOption hanswer, blocks, hformed, fun i hi => ?_, fun b hb => ?_⟩
  · rw [hsame i (by simp only [wordSize]; omega)]
    change (h.arena.memory.tabulate 0x100028 (0x100028 + 100) fun b =>
      UInt8.ofNat (b - 0x100028)).read (0x100028 + i) = _
    rw [Memory.read_tabulate, if_pos (by omega), Nat.add_sub_cancel_left]
  · have hgone := hfreed (by decide) b hb
    simp only [wordSize] at hgone
    omega

end BlockHeap
