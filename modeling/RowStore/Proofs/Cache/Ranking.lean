import RowStore.Cache.Ranking

/-!
# The order of giving up

A ranking is well-formed when its list holds the standings that it keeps under the pages, each
once, least used first and among equally used ones the one with the older last use. As every access
takes a time of its own, the page itself never decides. Accesses and removals keep a ranking
well-formed, and the first candidate with a property is the least one among those that have it.
-/

namespace RowStore

namespace Standing

variable {a b c : Standing} {l : List Standing}

/-- Fewer uses, or as many and an older last one. -/
def Earlier (a b : Standing) : Prop :=
  a.uses < b.uses ∨ a.uses = b.uses ∧ a.lastUse < b.lastUse

theorem Earlier.trans (h : a.Earlier b) (h' : b.Earlier c) : a.Earlier c := by
  unfold Earlier at *
  omega

theorem Earlier.ne (h : a.Earlier b) : a ≠ b := by
  rintro rfl
  unfold Earlier at h
  omega

/-- Pages that were last used at different times are told apart without their identifiers. -/
theorem before_iff_earlier (h : b.lastUse ≠ a.lastUse) : a.Before b ↔ a.Earlier b := by
  unfold Before Earlier
  constructor
  · rintro (hlt | ⟨heq, hlt | ⟨hsame, -⟩⟩)
    · exact .inl hlt
    · exact .inr ⟨heq, hlt⟩
    · exact absurd hsame.symm h
  · rintro (hlt | ⟨heq, hlt⟩)
    · exact .inl hlt
    · exact .inr ⟨heq, .inl hlt⟩

theorem earlier_of_not_before (h : b.lastUse ≠ a.lastUse) (hnot : ¬ a.Before b) : b.Earlier a := by
  rw [before_iff_earlier h] at hnot
  unfold Earlier at *
  omega

theorem mem_insert : b ∈ insert a l ↔ b = a ∨ b ∈ l := by
  induction l with
  | nil => simp [insert]
  | cons c l ih =>
    unfold insert
    split
    · next heq => simp [heq]
    · split
      · simp
      · simp only [List.mem_cons, ih]
        exact or_left_comm

/-- A standing with a new time is put where it belongs. -/
theorem pairwise_insert (hl : l.Pairwise Earlier) (hnew : ∀ b ∈ l, b.lastUse ≠ a.lastUse) :
    (insert a l).Pairwise Earlier := by
  induction l with
  | nil => simp [insert]
  | cons c l ih =>
    obtain ⟨hc, hl⟩ := List.pairwise_cons.1 hl
    obtain ⟨hac, hrest⟩ := List.forall_mem_cons.1 hnew
    unfold insert
    split
    · next heq => exact absurd (heq ▸ rfl) hac
    · split
      · next hbefore =>
        have hfirst := (before_iff_earlier hac).1 hbefore
        refine List.pairwise_cons.2 ⟨?_, List.pairwise_cons.2 ⟨hc, hl⟩⟩
        intro b hb
        rcases List.mem_cons.1 hb with rfl | hb
        · exact hfirst
        · exact hfirst.trans (hc b hb)
      · next hnot =>
        refine List.pairwise_cons.2 ⟨?_, ih hl hrest⟩
        intro b hb
        rcases mem_insert.1 hb with rfl | hb
        · exact earlier_of_not_before hac hnot
        · exact hc b hb

end Standing

namespace Ranking

variable {r : Ranking} {page : PageId}

/-- The list has the standings of the pages in the order in which the pages are given up. -/
structure WellFormed (r : Ranking) : Prop where
  wellKeyed : r.standings.WellKeyed
  page_eq : ∀ (page : PageId) (s : Standing), r.standings.get? page = some s → s.page = page
  mem_order : ∀ s, s ∈ r.order ↔ r.standings.get? s.page = some s
  sorted : r.order.Pairwise Standing.Earlier
  lastUse_le : ∀ s ∈ r.order, s.lastUse ≤ r.clock

theorem wellFormed_empty : Ranking.empty.WellFormed where
  wellKeyed := Keyed.wellKeyed_empty
  page_eq _ _ h := by cases h
  mem_order s := by simp [Ranking.empty]
  sorted := .nil
  lastUse_le _ h := by cases h

theorem clock_access (r : Ranking) (page : PageId) : (r.access page).clock = r.clock + 1 := by
  unfold access
  split <;> rfl

theorem get?_access (r : Ranking) (page q : PageId) :
    (r.access page).standings.get? q =
      if q = page then some ⟨(r.uses? page).getD 0 + 1, r.clock + 1, page⟩
      else r.standings.get? q := by
  unfold access uses?
  cases r.standings.get? page with
  | none => exact Keyed.get?_put _ _ _ _
  | some old => exact Keyed.get?_put _ _ _ _

theorem get?_remove (r : Ranking) (page q : PageId) :
    (r.remove page).standings.get? q = if q = page then none else r.standings.get? q := by
  unfold remove
  cases hold : r.standings.get? page with
  | none =>
    show r.standings.get? q = _
    split
    · next heq => rw [heq, hold]
    · rfl
  | some old => exact Keyed.get?_erase _ _ _

namespace WellFormed

theorem nodup_order (h : r.WellFormed) : r.order.Nodup := h.sorted.imp Standing.Earlier.ne

theorem mem_order_erase (h : r.WellFormed) {old : Standing}
    (hold : r.standings.get? page = some old) (s : Standing) :
    s ∈ r.order.erase old ↔ s.page ≠ page ∧ r.standings.get? s.page = some s := by
  rw [h.nodup_order.mem_erase_iff, h.mem_order]
  constructor
  · rintro ⟨hne, hs⟩
    refine ⟨?_, hs⟩
    rintro rfl
    exact hne (Option.some.inj (hs.symm.trans hold))
  · rintro ⟨hne, hs⟩
    refine ⟨?_, hs⟩
    rintro rfl
    exact hne (h.page_eq page s hold)

/-- Counting a use keeps the order: the standing that is put in is the only one of its page and
has the latest time. -/
theorem access (h : r.WellFormed) (page : PageId) : (r.access page).WellFormed := by
  have key (new : Standing) (l : List Standing) (hpage : new.page = page)
      (htime : new.lastUse = r.clock + 1) (hsub : l.Sublist r.order)
      (hl : ∀ s, s ∈ l ↔ s.page ≠ page ∧ r.standings.get? s.page = some s) :
      WellFormed ⟨r.standings.put page new, new.insert l, r.clock + 1⟩ := by
    have hle (s : Standing) (hs : s ∈ l) : s.lastUse ≤ r.clock :=
      h.lastUse_le s (hsub.subset hs)
    refine ⟨h.wellKeyed.put _ _, ?_, ?_, ?_, ?_⟩
    · intro q s hs
      rw [Keyed.get?_put] at hs
      split at hs
      · next hq => rw [← Option.some.inj hs, hpage, hq]
      · exact h.page_eq q s hs
    · intro s
      simp only [Standing.mem_insert, hl, Keyed.get?_put]
      split
      · next hs => simp [hs, eq_comm]
      · next hs =>
        have hne : s ≠ new := fun heq => hs (heq ▸ hpage)
        simp [hs, hne]
    · refine Standing.pairwise_insert (h.sorted.sublist hsub) fun s hs => ?_
      have := hle s hs
      omega
    · intro s hs
      rcases Standing.mem_insert.1 hs with rfl | hs
      · exact Nat.le_of_eq htime
      · exact Nat.le_succ_of_le (hle s hs)
  unfold Ranking.access
  cases hold : r.standings.get? page with
  | none =>
    refine key _ _ rfl rfl (List.Sublist.refl _) fun s => ?_
    rw [h.mem_order]
    refine ⟨fun hs => ⟨?_, hs⟩, And.right⟩
    rintro rfl
    rw [hold] at hs
    cases hs
  | some old => exact key _ _ rfl rfl List.erase_sublist (h.mem_order_erase hold)

theorem remove (h : r.WellFormed) (page : PageId) : (r.remove page).WellFormed := by
  unfold Ranking.remove
  cases hold : r.standings.get? page with
  | none => exact h
  | some old =>
    refine ⟨h.wellKeyed.erase _, ?_, ?_, h.sorted.sublist List.erase_sublist, ?_⟩
    · intro q s hs
      rw [Keyed.get?_erase] at hs
      split at hs
      · cases hs
      · exact h.page_eq q s hs
    · intro s
      rw [h.mem_order_erase hold, Keyed.get?_erase]
      split
      · next hs => simp [hs]
      · next hs => simp [hs]
    · exact fun s hs => h.lastUse_le s (List.mem_of_mem_erase hs)

/-- The candidates are the pages with a standing. -/
theorem mem_candidates (h : r.WellFormed) : page ∈ r.candidates ↔ page ∈ r.standings.keys := by
  rw [Keyed.mem_keys, candidates, List.mem_map]
  constructor
  · rintro ⟨s, hs, rfl⟩
    simp [(h.mem_order s).1 hs]
  · intro hsome
    obtain ⟨s, hs⟩ := Option.isSome_iff_exists.1 hsome
    obtain rfl := h.page_eq page s hs
    exact ⟨s, (h.mem_order s).2 hs, rfl⟩

theorem nodup_candidates (h : r.WellFormed) : r.candidates.Nodup := by
  refine List.pairwise_map.2 (h.nodup_order.imp_of_mem ?_)
  intro s t hs ht hne heq
  have hs := (h.mem_order s).1 hs
  rw [heq, (h.mem_order t).1 ht] at hs
  exact hne (Option.some.inj hs).symm

/-- Removing a page leaves the others in their order. -/
theorem candidates_remove (h : r.WellFormed) (page : PageId) :
    (r.remove page).candidates = r.candidates.filter (· ≠ page) := by
  unfold Ranking.remove
  cases hold : r.standings.get? page with
  | none =>
    have habsent : page ∉ r.candidates := by simp [h.mem_candidates, Keyed.mem_keys, hold]
    refine (List.filter_eq_self.2 fun q hq => ?_).symm
    exact decide_eq_true fun heq => habsent (heq ▸ hq)
  | some old =>
    simp only [candidates, List.filter_map, h.nodup_order.erase_eq_filter]
    congr 1
    refine List.filter_congr fun s hs => ?_
    have hs := (h.mem_order s).1 hs
    have : s = old ↔ s.page = page := by
      constructor
      · rintro rfl
        exact h.page_eq page s hold
      · intro hpage
        rw [hpage, hold] at hs
        exact (Option.some.inj hs).symm
    by_cases heq : s = old <;> simp_all

/-- The first candidate with a property is the least one of those that have it. -/
theorem find?_candidates (h : r.WellFormed) {p : PageId → Bool} {victim : PageId}
    (hfind : r.candidates.find? p = some victim) :
    p victim = true ∧ ∃ s, r.standings.get? victim = some s ∧
      ∀ (q : PageId) (t : Standing), r.standings.get? q = some t → p q = true → q ≠ victim →
        s.Earlier t := by
  obtain ⟨hp, firsts, lasts, happend, hfirsts⟩ := List.find?_eq_some_iff_append.1 hfind
  obtain ⟨before, rest, horder, rfl, hrest⟩ := List.map_eq_append_iff.1 happend
  obtain ⟨s, after, rfl, rfl, -⟩ := List.map_eq_cons_iff.1 hrest
  have hsorted := h.sorted
  rw [horder] at hsorted
  obtain ⟨-, hsorted, -⟩ := List.pairwise_append.1 hsorted
  refine ⟨hp, s, (h.mem_order s).1 (by simp [horder]), ?_⟩
  intro q t ht hq hne
  obtain rfl := h.page_eq q t ht
  have hmem := (h.mem_order t).2 ht
  rw [horder, List.mem_append, List.mem_cons] at hmem
  rcases hmem with hbefore | rfl | hafter
  · have := hfirsts t.page (List.mem_map_of_mem hbefore)
    simp [hq] at this
  · exact absurd rfl hne
  · exact (List.pairwise_cons.1 hsorted).1 t hafter

end WellFormed

end Ranking

end RowStore
