import BlockHeap.Proofs.Integrity

/-!
# The next-fit cursor

Headers vanish when blocks merge, when one grows in place and when the end is trimmed. The cursor of
a next-fit heap leaves them in time: at every point of a session it is absent or the address of a
block, so a report can show it as the offset of one of its rows.
-/

namespace BlockHeap

/-- The address of a block is not inside another one. -/
lemma not_within_of_mem_heads {a b : Nat} {blocks pre post : List Piece} {p : Piece}
    (hb : b ∈ heads a blocks) (hp : blocks = pre ++ p :: post) :
    ¬(a + span pre < b ∧ b < a + span pre + p.size) := by
  rw [hp, heads_append, heads_cons] at hb
  rcases List.mem_append.mp hb with hleft | hright
  · obtain ⟨before, q, after, rfl, rfl⟩ := mem_heads_iff.mp hleft
    rw [span_append]
    omega
  · rcases List.mem_cons.mp hright with rfl | hright
    · omega
    · obtain ⟨before, q, after, _, rfl⟩ := mem_heads_iff.mp hright
      omega

lemma Placement.eq_nextFit {p : Placement} (h : p.policy = .nextFit) : p = .nextFit p.cursor := by
  cases p with
  | nextFit cursor => rfl
  | firstFit | bestFit => exact absurd h nofun

variable {σ : Type} [Segment σ] {P : σ → Prop} {segment : σ} {memory : Memory} {config : Config}
  {h : Heap σ} {live : List Lease}

/-- Over an exact provider, at every point of a next-fit session, the cursor is absent or the address
of a block, not inside one and not at the end; a check shows it as absent or as the offset of one of
the rows. -/
theorem Reach.cursor_at_block (hP : Segment.Exact P) (hsegment : P segment)
    (hpolicy : config.policy = .nextFit) (hr : Reach segment memory config h live) :
    ∃ blocks cursor report, h.arena.Formed blocks ∧ h.arena.placement = .nextFit cursor ∧
      h.check = .ok report ∧ report.rows = Report.rowsOf h.arena.start h.arena.start blocks ∧
      (∀ c ∈ cursor, c ∈ heads h.arena.start blocks ∧ c < h.arena.stop ∧
        ∀ pre p post, blocks = pre ++ p :: post →
          ¬(h.arena.start + span pre < c ∧ c < h.arena.start + span pre + p.size)) ∧
      report.cursor = cursor.map (· - h.arena.start) ∧
      ∀ offset ∈ report.cursor, offset ∈ report.rows.map Report.Row.offset := by
  obtain ⟨blocks, hh⟩ := hr.held hP hsegment
  have hs := hh.sound
  have hplacement := Placement.eq_nextFit ((hr.settings hP hsegment).1.trans hpolicy)
  refine ⟨blocks, h.arena.placement.cursor, h.arena.reportOf blocks, hs.formed, hplacement,
    hs.check_eq.1, rfl, ?_, rfl, ?_⟩
  · intro c hc
    have hmem := hs.cursor c hc
    refine ⟨hmem, ?_, fun pre p post => not_within_of_mem_heads hmem⟩
    obtain ⟨pre, p, post, rfl, rfl⟩ := mem_heads_iff.mp hmem
    exact Arena.block_lt_stop hs.toLaid
  · intro offset hoffset
    obtain ⟨c, hc, rfl⟩ := Option.map_eq_some_iff.mp hoffset
    change _ ∈ (Report.rowsOf h.arena.start h.arena.start blocks).map _
    rw [Report.offsets_rowsOf]
    exact List.mem_map_of_mem (hs.cursor c hc)

/-- The cursor stands at the second block, which is freed, and leaves it for the first one when that
grows over it; before, the provider refused once to grow. -/
theorem Reach.cursor_at_block_played : ∃ (h : Heap Script) (live : List Lease),
    Heap.session (⟨0x100000, 65536, 0, 4096, [.grant, .deny], [.deny]⟩ : Script) (.blankOf 0xa5)
      ⟨.nextFit, 1024, 1024, .off⟩ [.allocate 100, .allocate 100, .allocate 5000, .allocate 5000,
        .free (some 0x1000a8), .resize (some 0x100028) 200] = some (h, live) ∧
    h.arena.placement = .nextFit (some 0x100020) ∧
    ∃ blocks cursor report, h.arena.Formed blocks ∧ h.arena.placement = .nextFit cursor ∧
      h.check = .ok report ∧ report.rows = Report.rowsOf h.arena.start h.arena.start blocks ∧
      (∀ c ∈ cursor, c ∈ heads h.arena.start blocks ∧ c < h.arena.stop ∧
        ∀ pre p post, blocks = pre ++ p :: post →
          ¬(h.arena.start + span pre < c ∧ c < h.arena.start + span pre + p.size)) ∧
      report.cursor = cursor.map (· - h.arena.start) ∧
      ∀ offset ∈ report.cursor, offset ∈ report.rows.map Report.Row.offset := by
  have hplayed : (Heap.session (⟨0x100000, 65536, 0, 4096, [.grant, .deny], [.deny]⟩ : Script)
      (.blankOf 0xa5) ⟨.nextFit, 1024, 1024, .off⟩ [.allocate 100, .allocate 100, .allocate 5000,
        .allocate 5000, .free (some 0x1000a8), .resize (some 0x100028) 200]).map
        (fun s => s.1.arena.placement) = some (.nextFit (some 0x100020)) := by
    decide +kernel
  obtain ⟨⟨h, live⟩, hs, hplacement⟩ := Option.map_eq_some_iff.mp hplayed
  have hsegment : Script.Honest ⟨0x100000, 65536, 0, 4096, [.grant, .deny], [.deny]⟩ :=
    ⟨by decide, by decide, by simp⟩
  exact ⟨h, live, hs, hplacement,
    Reach.cursor_at_block Script.exact_honest hsegment rfl (.of_session hs)⟩

end BlockHeap
