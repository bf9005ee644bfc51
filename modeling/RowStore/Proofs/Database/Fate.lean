import RowStore.Proofs.Database.Contents

/-!
# Which transaction keeps a row

A page remembers the transaction that changed it last and no other. That transaction commits or
undoes everything on the page that its file does not have yet: a row stays if this transaction
commits and goes if it aborts, whichever transaction inserted the row.
-/

namespace RowStore

/-- Insertions, deletions, commits and aborts. -/
def Call.Transactional : Call → Prop
  | .insert .. => True
  | .delete .. => True
  | .complete .. => True
  | _ => False

/-- The transaction for which a call changes rows. -/
def Call.writer? : Call → Option TxnId
  | .insert txn _ _ => some txn
  | .delete txn _ => some txn
  | _ => none

/-- What becomes of the changes that the file of a page does not have. As long as they are pending,
the transaction that changed the page last owns them. -/
inductive Fate where
  | pending (owner : TxnId)
  | kept
  | lost
  deriving DecidableEq

namespace Step

variable {σ : Type}

/-- The page shows other rows after the step. -/
def Changes (page : PageId) (s : Step σ) : Prop :=
  s.after.view.cells? page ≠ s.before.view.cells? page

instance (page : PageId) (s : Step σ) : Decidable (s.Changes page) :=
  inferInstanceAs (Decidable (_ ≠ _))

/-- The place of the row that an answer gives back. -/
def place? (s : Step σ) : Option RowId :=
  match s.answer with
  | .ok (.changed change) => change.row.place
  | _ => none

/-- An insertion put a row of these values into a place. -/
def Inserts (txn : TxnId) (spot : RowId) (values : List Value) (s : Step σ) : Prop :=
  ∃ table row, s.call = .insert txn table row ∧ s.place? = some spot ∧ row.val.values = values

/-- An insertion filled the place. -/
def Fills (spot : RowId) (s : Step σ) : Prop :=
  match s.call with
  | .insert .. => s.after.contents spot ≠ s.before.contents spot
  | _ => False

/-- A deletion emptied the place. -/
def Removes (spot : RowId) (s : Step σ) : Prop :=
  match s.call with
  | .delete .. => s.after.contents spot ≠ s.before.contents spot
  | _ => False

/-- The changes to a page go over to the next transaction that changes it. They end when their
owner completes; a commit that fails has stored some of its pages. -/
def turn (page : PageId) (s : Step σ) : Fate → Fate
  | .pending owner =>
    match s.call, s.answer with
    | .insert txn _ _, _ => .pending (if s.Changes page then txn else owner)
    | .delete txn _, _ => .pending (if s.Changes page then txn else owner)
    | .complete txn commit, .ok _ =>
      if txn = owner then (if commit then .kept else .lost) else .pending owner
    | .complete txn _, .error _ =>
      if txn = owner ∧ s.after.view.drafts page = none then .kept else .pending owner
    | _, _ => .pending owner
  | .kept => .kept
  | .lost => .lost

/-- The step does not complete the transaction, and another transaction does not change the page
in it. -/
def Spares (txn : TxnId) (page : PageId) (s : Step σ) : Prop :=
  match s.call with
  | .insert other _ _ => s.Changes page → other = txn
  | .delete other _ => s.Changes page → other = txn
  | .complete other _ => other ≠ txn
  | _ => True

end Step

namespace Fate

variable {σ : Type}

/-- The fate of what a transaction did to a page, after more steps. -/
def after (page : PageId) (txn : TxnId) : List (Step σ) → Fate
  | [] => .pending txn
  | s :: steps => s.turn page (after page txn steps)

/-- What is seen of the content that a place was given, when the file had an old one there. -/
def Holds (spot : RowId) (content old : Option (List Value)) (db : Database σ) : Fate → Prop
  | .pending owner => db.contents spot = content ∧ db.view.savedRow? spot = old ∧
      ∃ cells, db.view.drafts spot.page = some ⟨some owner, cells⟩
  | .kept => db.contents spot = content ∧ db.view.savedRow? spot = content
  | .lost => db.contents spot = old ∧ db.view.savedRow? spot = old

end Fate

namespace View

variable {u v w : View} {txn : TxnId} {spot : RowId} {content : Option (List Value)}

/-- Rows were changed by a transaction. No file has a row more or less, and a page with changes
is handed over if it is among the changed ones. -/
structure HandsOver (txn : TxnId) (v w : View) : Prop where
  savedRow?_eq : ∀ spot, w.savedRow? spot = v.savedRow? spot
  owner_eq : ∀ page owner cells, v.drafts page = some ⟨some owner, cells⟩ → ∃ cells',
    w.drafts page =
      some ⟨some (if w.cells? page ≠ v.cells? page then txn else owner), cells'⟩

theorem HandsOver.refl (txn : TxnId) (v : View) : HandsOver txn v v :=
  ⟨fun _ => rfl, fun _ _ cells h => ⟨cells, by rw [h, if_neg (not_not.2 rfl)]⟩⟩

theorem MayGrow.drafts_eq (h : v.MayGrow w) : w.drafts = v.drafts := by
  rcases h with rfl | ⟨page, slots, -, rfl⟩
  · rfl
  · rfl

theorem MayGrow.cells?_eq (h : v.MayGrow w) {page : PageId} (hpage : v.cells? page ≠ none) :
    w.cells? page = v.cells? page := by
  rcases h with rfl | ⟨new, slots, hnew, rfl⟩
  · rfl
  · rw [cells?_grow hnew, if_neg]
    rintro rfl
    exact hpage hnew

theorem MayGrow.savedRow?_eq (h : v.MayGrow w) (spot : RowId) :
    w.savedRow? spot = v.savedRow? spot := by
  rcases h with rfl | ⟨page, slots, hnew, rfl⟩
  · rfl
  · have hsaved : v.saved page = none := by
      rw [← cells?_of_no_draft (drafts_of_cells?_eq_none hnew), hnew]
    simp only [savedRow?, grow, Function.update_apply]
    split
    · next hq => simp [hq, hsaved, Cells.at?_blank]
    · rfl

theorem MayGrow.handsOver (h : v.MayGrow w) : HandsOver txn v w := by
  refine ⟨h.savedRow?_eq, fun page owner cells hdraft => ⟨cells, ?_⟩⟩
  have hpage : v.cells? page ≠ none := by simp [cells?_of_draft hdraft]
  rw [h.drafts_eq, hdraft, if_neg (not_not.2 (h.cells?_eq hpage))]

/-- Writing another content than the present one into a slot hands its page over. -/
theorem Wrote.handsOver (h : Wrote txn spot content u w) (hgrow : v.MayGrow u)
    (hnew : u.row? spot ≠ content) : HandsOver txn v w := by
  have hrow := h.row?_eq spot
  obtain ⟨cells, hcells, hlt, rfl⟩ := h
  refine ⟨fun place => hgrow.savedRow?_eq place, fun page owner old hdraft => ?_⟩
  have hpage : v.cells? page ≠ none := by simp [cells?_of_draft hdraft]
  by_cases hq : page = spot.page
  · subst hq
    have hchanged : (u.write spot.page txn (cells.set spot.slot content)).cells? spot.page ≠
        v.cells? spot.page := fun heq => by
      rw [if_pos rfl, row?, heq, ← hgrow.cells?_eq hpage] at hrow
      exact hnew hrow
    rw [if_pos hchanged]
    exact ⟨_, Function.update_self _ _ _⟩
  · have hsame : (u.write spot.page txn (cells.set spot.slot content)).cells? page =
        v.cells? page := by
      rw [cells?_write, if_neg hq, hgrow.cells?_eq hpage]
    refine ⟨old, ?_⟩
    rw [if_neg (not_not.2 hsame), ← hdraft, ← hgrow.drafts_eq]
    exact Function.update_of_ne hq _ _

end View

namespace Database

variable {σ : Type} {locking : LockManager σ} {txn : TxnId} {table : TableId} {row : Row}
  {spot : RowId} {values : List Value} {old content : Option (List Value)} {db db' : Database σ}
  {call : Call} {answer : Except StorageError Answer}

theorem Inserted.handsOver {change : Change} (h : Inserted txn table row change db db') :
    View.HandsOver txn db.view db'.view := by
  obtain ⟨w, spot, hgrow, -, -, hempty, hwrote⟩ := h.wrote
  exact hwrote.handsOver hgrow (by simp [hempty])

theorem Deleted.handsOver {change : Change} (h : Deleted txn table row change db db') :
    View.HandsOver txn db.view db'.view := by
  obtain ⟨spot, -, hrow, hwrote⟩ := h.wrote
  exact hwrote.handsOver (.inl rfl) (by simp [hrow])

theorem Effect.handsOver (h : Effect db db' call answer) (hwriter : call.writer? = some txn) :
    View.HandsOver txn db.view db'.view := by
  cases h with
  | inserted hi =>
    cases hwriter
    exact hi.handsOver
  | fruitless hf => exact hf.mayGrow.handsOver
  | deleted _ hd =>
    cases hwriter
    exact hd.handsOver
  | failed hq =>
    rw [hq.view_eq]
    exact .refl _ _
  | flushed hflush _ _ =>
    cases call with
    | insert | delete => cases hflush
    | _ => cases hwriter
  | discarded hdiscard _ _ _ =>
    cases call with
    | insert | delete => cases hdiscard
    | _ => cases hwriter
  | _ => cases hwriter

/-- An insertion leaves the rows alone that are there. -/
theorem Effect.not_fills (h : Effect db db' call answer) (hrow : db.contents spot = some values) :
    ¬ Step.Fills spot ⟨db, call, answer, db'⟩ := by
  cases call with
  | insert txn table row =>
    refine not_not.2 ?_
    cases h with
    | inserted hi =>
      obtain ⟨place, -, -, hempty, hcontents⟩ := hi.contents_eq
      have hne : spot ≠ place := by
        rintro rfl
        simp [hrow] at hempty
      show db'.contents spot = db.contents spot
      rw [hcontents, Function.update_of_ne hne]
    | fruitless hf => exact congrFun hf.contents_eq spot
    | failed hq => exact congrFun (contents_of_view_eq hq.view_eq) spot
    | flushed hflush _ _ => cases hflush
    | discarded hdiscard _ _ _ => cases hdiscard
  | _ => exact id

/-- A row that the file has too, or is missing there too, stays so. -/
theorem Effect.steady (h : Effect db db' call answer) (hcalls : call.Transactional)
    (hfree : ¬ Step.Fills spot ⟨db, call, answer, db'⟩)
    (hkeep : ¬ Step.Removes spot ⟨db, call, answer, db'⟩) (hrow : db.contents spot = content)
    (hsaved : db.view.savedRow? spot = content) :
    db'.contents spot = content ∧ db'.view.savedRow? spot = content := by
  cases call with
  | insert txn table row =>
    exact ⟨(not_not.1 hfree).trans hrow, ((h.handsOver rfl).savedRow?_eq spot).trans hsaved⟩
  | delete txn row =>
    exact ⟨(not_not.1 hkeep).trans hrow, ((h.handsOver rfl).savedRow?_eq spot).trans hsaved⟩
  | complete txn commit =>
    cases h with
    | failed hq =>
      refine ⟨(congrFun (contents_of_view_eq hq.view_eq) spot).trans hrow, ?_⟩
      rw [hq.view_eq]
      exact hsaved
    | flushed _ hf _ =>
      refine ⟨(congrFun hf.contents_eq spot).trans hrow, ?_⟩
      rw [hf.view_eq, View.savedRow?_flushAll, hsaved]
      exact ite_eq_right_iff.2 fun _ => hrow
    | discarded _ _ _ hview =>
      rw [contents, hview, View.row?_discardAll, View.savedRow?_discardAll, hsaved]
      exact ⟨ite_eq_left_iff.2 fun _ => hrow, rfl⟩
  | _ => exact hcalls.elim

theorem Coherent.mem_dirtyPages_of_draft {owner : TxnId} {page : PageId} {cells : Cells}
    (h : db.Coherent) (txn : TxnId) (hdraft : db.view.drafts page = some ⟨some owner, cells⟩) :
    page ∈ db.cache.dirtyPages (some txn) ↔ txn = owner := by
  rw [h.mem_dirtyPages, hdraft]
  constructor
  · rintro ⟨draft, hsame, howner⟩
    obtain rfl := Option.some.inj hsame
    exact (Option.some.inj (howner txn rfl)).symm
  · rintro rfl
    exact ⟨_, rfl, fun _ htxn => htxn⟩

section

variable {owner : TxnId} (h : db.Coherent)
  (hpending : (Fate.pending owner).Holds spot content old db)

include h hpending

theorem Coherent.turn_commit
    (hcall : (Database.perform locking (.complete txn true)).run db = (answer, db')) :
    (Step.turn spot.page ⟨db, .complete txn true, answer, db'⟩ (.pending owner)).Holds spot
      content old db' := by
  obtain ⟨hrow, hsaved, cells, hdraft⟩ := hpending
  obtain ⟨result, hrun, rfl⟩ := Action.run_map_eq hcall
  obtain ⟨flushed, rest, hpages, hf, hall⟩ := h.commit hrun
  have howner := h.mem_dirtyPages_of_draft txn hdraft
  have hrow' : db'.contents spot = content := (congrFun hf.contents_eq spot).trans hrow
  have hsaved' := View.savedRow?_flushAll db.view flushed spot
  have hdraft' := View.drafts_flushAll db.view flushed spot.page
  rw [← hf.view_eq] at hsaved' hdraft'
  by_cases hmem : spot.page ∈ flushed
  · rw [if_pos hmem] at hsaved' hdraft'
    have hkept : Fate.kept.Holds spot content old db' := ⟨hrow', hsaved'.trans hrow⟩
    obtain rfl := howner.1 (hpages ▸ List.mem_append_left _ hmem)
    cases result with
    | error e => simpa [Step.turn, Except.map, hdraft'] using hkept
    | ok _ => simpa [Step.turn, Except.map] using hkept
  · rw [if_neg hmem] at hsaved' hdraft'
    have hstill : (Fate.pending owner).Holds spot content old db' :=
      ⟨hrow', hsaved'.trans hsaved, cells, hdraft'.trans hdraft⟩
    cases result with
    | error e => simpa [Step.turn, Except.map, hdraft', hdraft] using hstill
    | ok _ =>
      have hne : txn ≠ owner := fun heq => hmem <| by
        have hmine := howner.2 heq
        rwa [hpages, hall rfl, List.append_nil] at hmine
      simpa [Step.turn, Except.map, hne] using hstill

theorem Coherent.turn_abort
    (hcall : (Database.perform locking (.complete txn false)).run db = (answer, db')) :
    (Step.turn spot.page ⟨db, .complete txn false, answer, db'⟩ (.pending owner)).Holds spot
      content old db' := by
  obtain ⟨hrow, hsaved, cells, hdraft⟩ := hpending
  obtain ⟨result, hrun, rfl⟩ := Action.run_map_eq hcall
  obtain ⟨rfl, -, -, -, hview⟩ := h.abort hrun
  have howner := h.mem_dirtyPages_of_draft txn hdraft
  have hrow' := View.row?_discardAll db.view (db.cache.dirtyPages (some txn)) spot
  have hsaved' := View.savedRow?_discardAll db.view (db.cache.dirtyPages (some txn)) spot
  have hdraft' := View.drafts_discardAll db.view (db.cache.dirtyPages (some txn)) spot.page
  rw [← hview] at hrow' hsaved' hdraft'
  by_cases heq : txn = owner
  · rw [if_pos (howner.2 heq)] at hrow'
    have hlost : Fate.lost.Holds spot content old db' := ⟨hrow'.trans hsaved, hsaved'.trans hsaved⟩
    simpa [Step.turn, Except.map, heq] using hlost
  · rw [if_neg (mt howner.1 heq)] at hrow' hdraft'
    have hstill : (Fate.pending owner).Holds spot content old db' :=
      ⟨hrow'.trans hrow, hsaved'.trans hsaved, cells, hdraft'.trans hdraft⟩
    simpa [Step.turn, Except.map, heq] using hstill

/-- As long as changes are pending the file keeps what it had. -/
theorem Coherent.turn_pending (hsmall : db.Small)
    (hcall : (Database.perform locking call).run db = (answer, db'))
    (hcalls : call.Transactional) : ∃ content',
      (Step.turn spot.page ⟨db, call, answer, db'⟩ (.pending owner)).Holds spot content' old db' ∧
        (¬ Step.Fills spot ⟨db, call, answer, db'⟩ → ¬ Step.Removes spot ⟨db, call, answer, db'⟩ →
          content' = content) := by
  have heffect := h.effect hsmall hcall
  cases call with
  | insert txn table row =>
    obtain ⟨hrow, hsaved, cells, hdraft⟩ := hpending
    have hover := heffect.handsOver rfl
    exact ⟨db'.contents spot, ⟨rfl, (hover.savedRow?_eq spot).trans hsaved,
      hover.owner_eq _ _ _ hdraft⟩, fun hfree _ => (not_not.1 hfree).trans hrow⟩
  | delete txn row =>
    obtain ⟨hrow, hsaved, cells, hdraft⟩ := hpending
    have hover := heffect.handsOver rfl
    exact ⟨db'.contents spot, ⟨rfl, (hover.savedRow?_eq spot).trans hsaved,
      hover.owner_eq _ _ _ hdraft⟩, fun _ hkeep => (not_not.1 hkeep).trans hrow⟩
  | complete txn commit =>
    refine ⟨content, ?_, fun _ _ => rfl⟩
    cases commit with
    | true => exact h.turn_commit hpending hcall
    | false => exact h.turn_abort hpending hcall
  | _ => exact hcalls.elim

end

theorem Coherent.holds_of_inserts {s : Step σ} (h : s.before.Coherent) (hsmall : s.before.Small)
    (htaken : s.Taken locking) (hinserts : s.Inserts txn spot values) :
    (Fate.pending txn).Holds spot (some values) (s.before.view.savedRow? spot) s.after := by
  obtain ⟨db, call, answer, db'⟩ := s
  obtain ⟨table, row, rfl, hplace, rfl⟩ := hinserts
  obtain ⟨result, hrun, rfl⟩ := Action.run_map_eq htaken
  rcases h.insert hsmall row.property hrun with ⟨e, rfl, -⟩ | ⟨change, rfl, hi⟩
  · cases hplace
  · obtain ⟨w, place, hgrow, -, hplace', -, hwrote⟩ := hi.wrote
    obtain rfl : place = spot := Option.some.inj (hplace'.symm.trans hplace)
    have hrow := hwrote.row?_eq place
    obtain ⟨cells, -, -, hview⟩ := hwrote
    rw [if_pos rfl] at hrow
    refine ⟨hrow, ?_, cells.set place.slot (some row.val.values), ?_⟩
    · rw [hview]
      exact hgrow.savedRow?_eq place
    · rw [hview]
      exact Function.update_self _ _ _

/-- What is known of a row after a step follows from its fate before. -/
theorem Coherent.turn {s : Step σ} {fate : Fate} (h : s.before.Coherent) (hsmall : s.before.Small)
    (htaken : s.Taken locking) (hcalls : s.call.Transactional) (hkeep : ¬ s.Removes spot)
    (hfree : fate = .lost → ¬ s.Fills spot)
    (hholds : fate.Holds spot (some values) old s.before) :
    (s.turn spot.page fate).Holds spot (some values) old s.after := by
  have heffect := h.effect hsmall htaken
  cases fate with
  | pending owner =>
    have hfree := heffect.not_fills hholds.1
    obtain ⟨content, hafter, hsame⟩ := h.turn_pending hholds hsmall htaken hcalls
    obtain rfl := hsame hfree hkeep
    exact hafter
  | kept =>
    have hfree := heffect.not_fills hholds.1
    exact heffect.steady hcalls hfree hkeep hholds.1 hholds.2
  | lost => exact heffect.steady hcalls (hfree rfl) hkeep hholds.1 hholds.2

end Database

namespace Fate

variable {σ : Type} {page : PageId} {txn : TxnId} {s : Step σ} {steps : List (Step σ)}

theorem after_append (more : List (Step σ)) (h : ∀ owner, after page txn steps ≠ .pending owner) :
    after page txn (more ++ steps) = after page txn steps := by
  induction more with
  | nil => rfl
  | cons s more ih =>
    rw [List.cons_append, after, ih]
    cases hfate : after page txn steps with
    | pending owner => exact absurd hfate (h owner)
    | kept => rfl
    | lost => rfl

/-- A page stays with a transaction as long as the steps spare it. -/
theorem turn_of_spares (h : s.Spares txn page) : s.turn page (.pending txn) = .pending txn := by
  obtain ⟨db, call, answer, db'⟩ := s
  cases call with
  | insert other table row =>
    exact congrArg pending (ite_eq_right_iff.2 h)
  | delete other row =>
    exact congrArg pending (ite_eq_right_iff.2 h)
  | complete other commit =>
    have hne : other ≠ txn := h
    cases answer with
    | error e => exact if_neg fun hown => hne hown.1
    | ok _ => exact if_neg hne
  | _ => rfl

theorem after_of_spares (h : ∀ s ∈ steps, s.Spares txn page) :
    after page txn steps = .pending txn := by
  induction steps with
  | nil => rfl
  | cons s steps ih =>
    obtain ⟨hs, hsteps⟩ := List.forall_mem_cons.1 h
    rw [after, ih hsteps, turn_of_spares hs]

/-- The end of the transaction settles what becomes of a page that was left to it. -/
theorem after_of_ended {commit : Bool} (more : List (Step σ))
    (hsteps : ∀ s ∈ steps, s.Spares txn page) (hcall : s.call = .complete txn commit)
    (hok : s.answer.isOk = true) :
    after page txn (more ++ s :: steps) = if commit then .kept else .lost := by
  have hturn : after page txn (s :: steps) = if commit then .kept else .lost := by
    rw [after, after_of_spares hsteps]
    cases hanswer : s.answer with
    | error e =>
      rw [hanswer] at hok
      cases hok
    | ok answer => simp only [Step.turn, hcall, hanswer, if_true]
  rw [after_append more, hturn]
  intro owner
  rw [hturn]
  cases commit with
  | true => exact Fate.noConfusion
  | false => exact Fate.noConfusion

end Fate

namespace Run

variable {σ : Type} {locking : LockManager σ} {start db : Database σ}
  {earlier later : List (Step σ)} {s : Step σ} {spot : RowId} {txn : TxnId} {values : List Value}
  {old : Option (List Value)}

theorem split (later : List (Step σ)) (hrun : Run locking start (later ++ earlier) db) :
    ∃ mid, Run locking start earlier mid ∧ Run locking mid later db := by
  induction later generalizing db with
  | nil => exact ⟨db, hrun, .nil⟩
  | cons s later ih =>
    cases hrun with
    | cons hrun hsmall htaken =>
      obtain ⟨mid, hearlier, hlater⟩ := ih hrun
      exact ⟨mid, hearlier, hlater.cons hsmall htaken⟩

section

variable (hrun : Run locking start later db)
  (hsteps : ∀ s ∈ later, s.before.Coherent ∧ s.before.Small ∧ s.Taken locking)
  (hcalls : ∀ s ∈ later, s.call.Transactional)
  (hstart : (Fate.pending txn).Holds spot (some values) old start)

include hrun hsteps hcalls hstart

/-- Whatever is done to the place, its file has what it had as long as the page is pending. -/
theorem pending_after {owner : TxnId}
    (hfate : Fate.after spot.page txn later = .pending owner) :
    ∃ content, (Fate.pending owner).Holds spot content old db := by
  induction hrun generalizing owner with
  | nil =>
    cases hfate
    exact ⟨_, hstart⟩
  | @cons later s hrun _ _ ih =>
    obtain ⟨⟨hc, hsmall, htaken⟩, hsteps⟩ := List.forall_mem_cons.1 hsteps
    obtain ⟨hcall, hcalls⟩ := List.forall_mem_cons.1 hcalls
    cases hbefore : Fate.after spot.page txn later with
    | pending former =>
      obtain ⟨content, hholds⟩ := ih hsteps hcalls hbefore
      obtain ⟨content', hafter, -⟩ := hc.turn_pending hholds hsmall htaken hcall
      rw [Fate.after, hbefore] at hfate
      exact ⟨content', hfate ▸ hafter⟩
    | kept =>
      rw [Fate.after, hbefore] at hfate
      cases hfate
    | lost =>
      rw [Fate.after, hbefore] at hfate
      cases hfate

/-- The abort of the transaction that changed the page last takes back what was done to the
place. -/
theorem contents_of_aborted {owner : TxnId} {answer : Except StorageError Answer}
    {db' : Database σ} (hfate : Fate.after spot.page txn later = .pending owner)
    (hc : db.Coherent) (hcall : (Database.perform locking (.complete owner false)).run db =
      (answer, db')) : db'.contents spot = old := by
  obtain ⟨content, hholds⟩ := hrun.pending_after hsteps hcalls hstart hfate
  have hlost := hc.turn_abort hholds hcall
  obtain ⟨result, hrun, rfl⟩ := Action.run_map_eq hcall
  obtain ⟨rfl, -⟩ := hc.abort hrun
  simp only [Step.turn, Except.map, if_true] at hlost
  exact hlost.1

theorem holds_after (hkeep : ∀ s ∈ later, ¬ s.Removes spot)
    (hfree : Fate.after spot.page txn later = .lost → ∀ s ∈ later, ¬ s.Fills spot) :
    (Fate.after spot.page txn later).Holds spot (some values) old db := by
  induction hrun with
  | nil => exact hstart
  | @cons later s hrun _ _ ih =>
    obtain ⟨⟨hc, hsmall, htaken⟩, hsteps⟩ := List.forall_mem_cons.1 hsteps
    obtain ⟨hcall, hcalls⟩ := List.forall_mem_cons.1 hcalls
    obtain ⟨hkeeps, hkeep⟩ := List.forall_mem_cons.1 hkeep
    have hlost : Fate.after spot.page txn later = .lost →
        Fate.after spot.page txn (s :: later) = .lost := fun hfate => by
      rw [Fate.after, hfate]
      rfl
    have hbefore := ih hsteps hcalls hkeep fun hfate =>
      (List.forall_mem_cons.1 (hfree (hlost hfate))).2
    exact hc.turn hsmall htaken hcall hkeeps
      (fun hfate => (List.forall_mem_cons.1 (hfree (hlost hfate))).1) hbefore

end

end Run

theorem Run.rows_share_fate {σ : Type} {locking : LockManager σ} {start db : Database σ}
    {earlier later : List (Step σ)} {s : Step σ} {spot : RowId} {txn : TxnId}
    {values : List Value} (hfresh : start.Fresh)
    (hrun : Run locking start (later ++ s :: earlier) db)
    (hcalls : ∀ s' ∈ later, s'.call.Transactional) (hinserts : s.Inserts txn spot values) :
    ((∀ s' ∈ later, ¬ s'.Removes spot) →
      (Fate.after spot.page txn later = .lost → ∀ s' ∈ later, ¬ s'.Fills spot) →
      (Fate.after spot.page txn later).Holds spot (some values)
        (s.before.view.savedRow? spot) db) ∧
    ∀ (more mid : List (Step σ)) (ended : Step σ) (commit : Bool),
      later = more ++ ended :: mid → ended.call = .complete txn commit →
      ended.answer.isOk = true → (∀ s' ∈ mid, s'.Spares txn spot.page) →
      Fate.after spot.page txn later = (if commit then .kept else .lost) ∧
        (commit = false → ended.after.contents spot = s.before.view.savedRow? spot) := by
  have hsteps := hrun.before_coherent hfresh
  obtain ⟨hlater, hearlier⟩ := List.forall_mem_append.1 hsteps
  obtain ⟨base, hbase, hrest⟩ := Run.split later hrun
  cases hbase with
  | cons _ hsmall htaken =>
    obtain ⟨hc, -, -⟩ := hearlier s List.mem_cons_self
    have hstart := hc.holds_of_inserts hsmall htaken hinserts
    refine ⟨hrest.holds_after hlater hcalls hstart, ?_⟩
    rintro more mid ended commit rfl hcall hok hspares
    refine ⟨Fate.after_of_ended more hspares hcall hok, ?_⟩
    rintro rfl
    obtain ⟨-, hends⟩ := List.forall_mem_append.1 hlater
    obtain ⟨⟨hcoherent, -, hended⟩, hmids⟩ := List.forall_mem_cons.1 hends
    have hcallsMid : ∀ s' ∈ mid, s'.call.Transactional := fun s' hs =>
      hcalls s' (List.mem_append_right _ (List.mem_cons_of_mem _ hs))
    obtain ⟨_, hend, -⟩ := Run.split more hrest
    cases hend with
    | cons hbefore _ _ =>
      rw [Step.Taken, hcall] at hended
      exact hbefore.contents_of_aborted hmids hcallsMid hstart (Fate.after_of_spares hspares)
        hcoherent hended

/-- A row that was committed outlives the abort of the next transaction on its page. -/
theorem Run.rows_share_fate_two_owners :
    (Database.ofTable Database.numbers 9 2).Fresh ∧
      ∃ (later : List (Step Unit)) (s : Step Unit) (db : Database Unit),
        Run .permissive (Database.ofTable Database.numbers 9 2) (later ++ [s]) db ∧
        later.map (fun s' => s'.answer.isOk) = [true, true, true] ∧
        s.Inserts ⟨1⟩ ⟨⟨TableFile.idOf ["t"], 0⟩, 0⟩ [.int 5] ∧
        Fate.kept.Holds ⟨⟨TableFile.idOf ["t"], 0⟩, 0⟩ (some [.int 5]) none db := by
  have hfresh : (Database.ofTable Database.numbers 9 2).Fresh :=
    .ofTable (by decide) (by decide) rfl
  obtain ⟨aborted, changed, committed, s, db, hrun, hcalls, hoks, hinserts, hsaved⟩ :
      ∃ aborted changed committed s db, Run .permissive (Database.ofTable Database.numbers 9 2)
          ([aborted, changed, committed] ++ [s]) db ∧
        [aborted, changed, committed].map Step.call = [.complete ⟨2⟩ false,
          .insert ⟨2⟩ (TableFile.idOf ["t"]) (Database.number 6), .complete ⟨1⟩ true] ∧
        [aborted, changed, committed].map (fun s' => s'.answer.isOk) = [true, true, true] ∧
        s.Inserts ⟨1⟩ ⟨⟨TableFile.idOf ["t"], 0⟩, 0⟩ [.int 5] ∧
        s.before.view.savedRow? ⟨⟨TableFile.idOf ["t"], 0⟩, 0⟩ = none :=
    ⟨_, _, _, _, _, Run.of_calls .permissive (Database.ofTable Database.numbers 9 2)
      [.insert ⟨1⟩ (TableFile.idOf ["t"]) (Database.number 5), .complete ⟨1⟩ true,
        .insert ⟨2⟩ (TableFile.idOf ["t"]) (Database.number 6), .complete ⟨2⟩ false]
      (by decide +kernel), rfl, by decide +kernel,
      ⟨_, Database.number 5, rfl, by decide +kernel, rfl⟩, by decide +kernel⟩
  simp only [List.map_cons, List.map_nil, List.cons.injEq, and_true] at hcalls hoks
  obtain ⟨haborted, hchanged, hcommitted⟩ := hcalls
  obtain ⟨hholds, hended⟩ := Run.rows_share_fate hfresh hrun
    (by simp [Call.Transactional, haborted, hchanged, hcommitted]) hinserts
  obtain ⟨hkept, -⟩ := hended [aborted, changed] [] committed true rfl hcommitted hoks.2.2
    (by simp)
  have hrow := hholds (by simp [Step.Removes, haborted, hchanged, hcommitted]) (by simp [hkept])
  rw [hkept, hsaved] at hrow
  exact ⟨hfresh, _, s, db, hrun, by simp [hoks], hinserts, hrow⟩

/-- When another transaction has changed the page after it, a transaction that commits does not
store its row, which an abort of the other one then takes away, and one that aborts leaves its row
where it is. -/
theorem Run.row_outside_own_transaction :
    (Database.ofTable Database.numbers 9 2).Fresh ∧
      (∃ aborted committed changed s db,
        Run .permissive (Database.ofTable Database.numbers 9 2)
          [aborted, committed, changed, s] db ∧
        s.Inserts ⟨1⟩ ⟨⟨TableFile.idOf ["t"], 0⟩, 0⟩ [.int 5] ∧
        changed.call = .insert ⟨2⟩ (TableFile.idOf ["t"]) (Database.number 6) ∧
        committed.call = .complete ⟨1⟩ true ∧ committed.answer.isOk = true ∧
        committed.after.view.savedRow? ⟨⟨TableFile.idOf ["t"], 0⟩, 0⟩ = none ∧
        aborted.call = .complete ⟨2⟩ false ∧ aborted.answer.isOk = true ∧
        db.contents ⟨⟨TableFile.idOf ["t"], 0⟩, 0⟩ = none) ∧
      ∃ aborted changed s db,
        Run .permissive (Database.ofTable Database.numbers 9 2) [aborted, changed, s] db ∧
        s.Inserts ⟨1⟩ ⟨⟨TableFile.idOf ["t"], 0⟩, 0⟩ [.int 5] ∧
        changed.call = .insert ⟨2⟩ (TableFile.idOf ["t"]) (Database.number 6) ∧
        aborted.call = .complete ⟨1⟩ false ∧ aborted.answer.isOk = true ∧
        db.contents ⟨⟨TableFile.idOf ["t"], 0⟩, 0⟩ = some [.int 5] := by
  refine ⟨.ofTable (by decide) (by decide) rfl, ?_, ?_⟩
  · exact ⟨_, _, _, _, _, Run.of_calls .permissive (Database.ofTable Database.numbers 9 2)
      [.insert ⟨1⟩ (TableFile.idOf ["t"]) (Database.number 5),
        .insert ⟨2⟩ (TableFile.idOf ["t"]) (Database.number 6), .complete ⟨1⟩ true,
        .complete ⟨2⟩ false] (by decide +kernel),
      ⟨_, Database.number 5, rfl, by decide +kernel, rfl⟩, rfl, rfl, by decide +kernel,
      by decide +kernel, rfl, by decide +kernel, by decide +kernel⟩
  · exact ⟨_, _, _, _, Run.of_calls .permissive (Database.ofTable Database.numbers 9 2)
      [.insert ⟨1⟩ (TableFile.idOf ["t"]) (Database.number 5),
        .insert ⟨2⟩ (TableFile.idOf ["t"]) (Database.number 6), .complete ⟨1⟩ false]
      (by decide +kernel), ⟨_, Database.number 5, rfl, by decide +kernel, rfl⟩, rfl, rfl,
      by decide +kernel, by decide +kernel⟩

end RowStore
