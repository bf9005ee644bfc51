import Mathlib.Data.List.DropRight
import Mathlib.Data.List.Induction
import Mathlib.Data.List.Nodup
import RowStore.Proofs.Cache.Ranking

/-!
# A ranking and the log of its calls

The standing of a page can be read off the plain log of accesses and removals: it has as many uses
as there were accesses since its last removal, and of equally used pages the one whose last access
stands earlier in the log goes first. A ranking keeps this up call by call, although it sees only
one call at a time.
-/

namespace RowStore

namespace Ranking

/-- What a ranking is told. -/
inductive Event where
  | access (page : PageId)
  | remove (page : PageId)
  deriving DecidableEq

namespace Event

def isAccess : Event → Bool
  | .access _ => true
  | .remove _ => false

/-- The events after the last removal of a page. -/
def sinceRemoved (page : PageId) (log : List Event) : List Event :=
  log.rtakeWhile fun e => e ≠ .remove page

/-- How often a page was used since its last removal. -/
def uses (page : PageId) (log : List Event) : Nat := (sinceRemoved page log).count (.access page)

/-- A page was accessed at this position of the log, and not later. -/
def LastAccess (log : List Event) (page : PageId) (i : Nat) : Prop :=
  log[i]? = some (.access page) ∧ ∀ j, i < j → log[j]? ≠ some (.access page)

/-- By the log, one page goes before another. -/
def GoesBefore (log : List Event) (p q : PageId) : Prop :=
  uses p log < uses q log ∨ uses p log = uses q log ∧
    ∃ i j, LastAccess log p i ∧ LastAccess log q j ∧ i < j

variable {page : PageId} {log : List Event} {e : Event}

theorem uses_concat_access (page q : PageId) (log : List Event) :
    uses q (log ++ [.access page]) = if q = page then uses q log + 1 else uses q log := by
  rw [uses, sinceRemoved, List.rtakeWhile_concat_pos _ _ _ (by simp), List.count_append]
  by_cases h : q = page
  · simp [h, uses, sinceRemoved]
  · simp [h, Ne.symm h, uses, sinceRemoved]

theorem uses_concat_remove (page q : PageId) (log : List Event) :
    uses q (log ++ [.remove page]) = if q = page then 0 else uses q log := by
  rw [uses, sinceRemoved, List.rtakeWhile_concat]
  by_cases h : q = page
  · simp [h]
  · simp [h, Ne.symm h, uses, sinceRemoved, List.count_append]

theorem uses_pos : 0 < uses page log ↔ .access page ∈ sinceRemoved page log :=
  List.count_pos_iff

theorem uses_le (page : PageId) (log : List Event) : uses page log ≤ log.countP isAccess := by
  have hsub := (List.rtakeWhile_suffix (fun e => e ≠ .remove page) log).sublist
  refine Nat.le_trans (List.countP_mono_left fun e _ he => ?_) hsub.countP_le
  rw [beq_iff_eq.1 he]
  rfl

theorem LastAccess.concat_self (log : List Event) (page : PageId) :
    LastAccess (log ++ [.access page]) page log.length := by
  unfold LastAccess
  grind

theorem LastAccess.concat {i : Nat} (h : LastAccess log page i) (hne : e ≠ .access page) :
    LastAccess (log ++ [e]) page i := by
  unfold LastAccess at *
  grind

end Event

/-- One event. -/
def note (r : Ranking) : Event → Ranking
  | .access page => r.access page
  | .remove page => r.remove page

/-- The ranking after all events of a log. -/
def ofLog (log : List Event) : Ranking := log.foldl note empty

theorem ofLog_concat (log : List Event) (e : Event) : ofLog (log ++ [e]) = (ofLog log).note e := by
  rw [ofLog, List.foldl_append, List.foldl_cons, List.foldl_nil, ofLog]

/-! ## What one event keeps -/

/-- The standings are told by the log: the uses are counted, and the time of the last use is the
number of accesses up to then. -/
structure Follows (log : List Event) (r : Ranking) : Prop where
  wellFormed : r.WellFormed
  clock_eq : r.clock = log.countP Event.isAccess
  uses?_eq : ∀ page, r.uses? page =
    if 0 < Event.uses page log then some (Event.uses page log) else none
  lastUse_eq : ∀ page s, r.standings.get? page = some s →
    ∃ i, Event.LastAccess log page i ∧ s.lastUse = (log.take (i + 1)).countP Event.isAccess

namespace Follows

variable {log : List Event} {r : Ranking} {page : PageId}

theorem empty : Follows [] Ranking.empty where
  wellFormed := wellFormed_empty
  clock_eq := rfl
  uses?_eq _ := rfl
  lastUse_eq _ _ h := by cases h

theorem uses_eq (h : r.Follows log) {s : Standing} (hs : r.standings.get? page = some s) :
    s.uses = Event.uses page log ∧ 0 < s.uses := by
  have huses := h.uses?_eq page
  rw [uses?, hs, Option.map_some] at huses
  split at huses <;> grind

theorem access (h : r.Follows log) (page : PageId) :
    (r.access page).Follows (log ++ [.access page]) where
  wellFormed := h.wellFormed.access page
  clock_eq := by simp [clock_access, h.clock_eq, Event.isAccess]
  uses?_eq q := by
    rw [uses?, get?_access, Event.uses_concat_access]
    split
    · next heq =>
      subst heq
      have huses := h.uses?_eq q
      split at huses <;> grind
    · exact h.uses?_eq q
  lastUse_eq q s hs := by
    rw [get?_access] at hs
    split at hs
    · next heq =>
      obtain rfl := Option.some.inj hs
      refine ⟨log.length, heq ▸ .concat_self log page, ?_⟩
      rw [List.take_of_length_le (by simp), List.countP_append, h.clock_eq]
      rfl
    · next hne =>
      obtain ⟨i, hi, hlast⟩ := h.lastUse_eq q s hs
      have hlt := (List.getElem?_eq_some_iff.1 hi.1).1
      refine ⟨i, hi.concat (by simpa using Ne.symm hne), ?_⟩
      rw [hlast, List.take_append_of_le_length hlt]

theorem remove (h : r.Follows log) (page : PageId) :
    (r.remove page).Follows (log ++ [.remove page]) where
  wellFormed := h.wellFormed.remove page
  clock_eq := by
    have hclock : (r.remove page).clock = r.clock := by
      unfold Ranking.remove
      split <;> rfl
    simp [hclock, h.clock_eq, Event.isAccess]
  uses?_eq q := by
    rw [uses?, get?_remove, Event.uses_concat_remove]
    split
    · rfl
    · exact h.uses?_eq q
  lastUse_eq q s hs := by
    rw [get?_remove] at hs
    split at hs
    · cases hs
    · obtain ⟨i, hi, hlast⟩ := h.lastUse_eq q s hs
      have hlt := (List.getElem?_eq_some_iff.1 hi.1).1
      refine ⟨i, hi.concat (by simp), ?_⟩
      rw [hlast, List.take_append_of_le_length hlt]

/-- What a ranking calls earlier goes before by the log. -/
theorem goesBefore (h : r.Follows log) {s t : Standing} (hs : r.standings.get? s.page = some s)
    (ht : r.standings.get? t.page = some t) (hst : s.Earlier t) :
    Event.GoesBefore log s.page t.page := by
  unfold Event.GoesBefore
  rw [← (h.uses_eq hs).1, ← (h.uses_eq ht).1]
  refine hst.imp_right fun ⟨huses, hlast⟩ => ⟨huses, ?_⟩
  obtain ⟨i, hi, hsi⟩ := h.lastUse_eq _ s hs
  obtain ⟨j, hj, htj⟩ := h.lastUse_eq _ t ht
  refine ⟨i, j, hi, hj, Nat.lt_of_not_le fun hle => ?_⟩
  -- more of the log has at least as many accesses
  have hcount := (List.take_sublist_take_left (l := log) (Nat.add_le_add_right hle 1)).countP_le
    (p := Event.isAccess)
  omega

end Follows

theorem follows_ofLog (log : List Event) : (ofLog log).Follows log := by
  induction log using List.reverseRecOn with
  | nil => exact .empty
  | append_singleton log e ih =>
    rw [ofLog_concat]
    cases e with
    | access page => exact ih.access page
    | remove page => exact ih.remove page

/-! ## What the log tells -/

namespace WellFormed

variable {r : Ranking}

/-- The list has the standings that are kept under the pages, each once. -/
theorem entries_perm (h : r.WellFormed) :
    r.standings.entries.Perm (r.order.map fun s => (s.page, s)) := by
  have hentries : r.standings.entries.Nodup := List.Nodup.of_map _ h.wellKeyed
  have horder : (r.order.map fun s => (s.page, s)).Nodup :=
    h.nodup_order.map fun _ _ heq => (Prod.mk.inj heq).2
  refine (List.perm_ext_iff_of_nodup hentries horder).2 ?_
  rintro ⟨page, s⟩
  rw [h.wellKeyed.mem_entries, List.mem_map]
  constructor
  · intro hs
    obtain rfl := h.page_eq page s hs
    exact ⟨s, (h.mem_order s).2 hs, rfl⟩
  · rintro ⟨t, ht, heq⟩
    obtain ⟨rfl, rfl⟩ := Prod.mk.inj heq
    exact (h.mem_order t).1 ht

end WellFormed

/-- A ranking keeps the pages as the log of its calls tells. Its numbers do not outgrow the number
of accesses, so below `2 ^ 64` accesses they are the ones that 64-bit words would have. -/
structure KeepsLog (log : List Event) (r : Ranking) : Prop where
  mem_candidates : ∀ page, page ∈ r.candidates ↔ .access page ∈ Event.sinceRemoved page log
  nodup_candidates : r.candidates.Nodup
  sorted : r.candidates.Pairwise (Event.GoesBefore log)
  uses?_eq : ∀ page, r.uses? page =
    if .access page ∈ Event.sinceRemoved page log then some (Event.uses page log) else none
  entries_perm : r.standings.entries.Perm (r.order.map fun s => (s.page, s))
  clock_eq : r.clock = log.countP Event.isAccess
  bounded : ∀ s ∈ r.order, s.uses ≤ log.countP Event.isAccess ∧
    s.lastUse ≤ log.countP Event.isAccess

/-- After any accesses and removals, the candidates are the pages that were accessed since they were
removed last, least used first, and of equally used ones the one that was not accessed for longer.
-/
theorem keeps_log (log : List Event) : (ofLog log).KeepsLog log := by
  have h := follows_ofLog log
  have hwf := h.wellFormed
  refine ⟨?_, hwf.nodup_candidates, ?_, ?_, hwf.entries_perm, h.clock_eq, ?_⟩
  · intro page
    have huses := h.uses?_eq page
    rw [hwf.mem_candidates, Keyed.mem_keys, ← Event.uses_pos]
    unfold uses? at huses
    cases hget : (ofLog log).standings.get? page <;> grind
  · refine List.pairwise_map.2 (hwf.sorted.imp_of_mem fun hs ht hst => ?_)
    exact h.goesBefore ((hwf.mem_order _).1 hs) ((hwf.mem_order _).1 ht) hst
  · intro page
    simpa only [Event.uses_pos] using h.uses?_eq page
  · intro s hs
    refine ⟨?_, h.clock_eq ▸ hwf.lastUse_le s hs⟩
    rw [(h.uses_eq ((hwf.mem_order s).1 hs)).1]
    exact Event.uses_le s.page log

end Ranking

end RowStore
