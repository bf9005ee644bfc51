import Mathlib.Data.List.Induction
import RowStore.Proofs.Page.Cells
import RowStore.Proofs.Page.Edits

/-!
# The image that a page goes back to

A page takes a snapshot of itself when it is made, when it is told to, and when it is marked dirty
while it is clean. Nothing else touches the snapshot, so at any time the page goes back to what it
held at the last of these moments, whatever became of it since.
-/

namespace RowStore

namespace Page

/-- What a call leaves of the mark that a page bears: only marking it changes that. -/
def Edit.remark (dirty : Bool) : Edit → Bool
  | .insert _ | .delete _ | .snapshot => dirty
  | .mark again _ => again

/-- The mark that calls leave on a page that was clean: the last of them that marked it decides. -/
def Edit.marked (edits : List Edit) : Bool := edits.foldl Edit.remark false

/-- A call that makes a page with that mark take a snapshot. -/
def Edit.Snaps (dirty : Bool) : Edit → Prop
  | .insert _ => False
  | .delete _ => False
  | .mark again _ => again = true ∧ dirty = false
  | .snapshot => True

instance (dirty : Bool) (e : Edit) : Decidable (e.Snaps dirty) :=
  match e with
  | .insert _ => inferInstanceAs (Decidable False)
  | .delete _ => inferInstanceAs (Decidable False)
  | .mark again _ => inferInstanceAs (Decidable (again = true ∧ dirty = false))
  | .snapshot => inferInstanceAs (Decidable True)

/-- Of the calls made of a page, the last one that took a snapshot comes at the end of the earlier
ones; if there are no earlier ones, none took a snapshot and the one from the beginning counts. -/
structure LastSnap (earlier later : List Edit) : Prop where
  taken : earlier = [] ∨
    ∃ before e, earlier = before ++ [e] ∧ e.Snaps (Edit.marked before)
  none_since : ∀ before e after, later = before ++ e :: after →
    ¬ e.Snaps (Edit.marked (earlier ++ before))

variable {p q start : Page} {row placed : Row} {page : PageId} {schema : Schema} {pageSize : Nat}

/-! ## One call -/

theorem before_of_insert (h : p.insert row = .ok (q, placed)) : q.before = p.before := by
  obtain ⟨-, slot, -, -, rfl⟩ := insert_eq_ok.1 h
  rfl

theorem before_of_delete (h : p.delete row = .ok (q, placed)) : q.before = p.before := by
  obtain ⟨slot, -, -, rfl⟩ := delete_eq_ok.1 h
  rfl

/-- The snapshot is the page as it is, or stays what it was. -/
theorem before_edit (p : Page) (e : Edit) :
    (p.edit e).before = if e.Snaps p.isDirty then (p.edit e).encode else p.before := by
  cases e with
  | insert row =>
    rw [if_neg (show ¬ Edit.Snaps p.isDirty (.insert row) from not_false)]
    cases h : p.insert row.val with
    | error e => rw [edit, InPlace.run_insert_of_error h]
    | ok result =>
      obtain ⟨place, -, hrun⟩ := InPlace.run_insert_of_ok h
      rw [edit, hrun, before_of_insert h]
  | delete row =>
    rw [if_neg (show ¬ Edit.Snaps p.isDirty (.delete row) from not_false)]
    cases h : p.delete row with
    | error e => rw [edit, InPlace.run_delete_of_error h]
    | ok result => rw [edit, InPlace.run_delete_of_ok h, before_of_delete h]
  | mark dirty owner? =>
    cases dirty with
    | true =>
      rw [edit, markDirty_eq]
      cases p.isDirty <;> simp [Edit.Snaps, encode]
    | false => simp [Edit.Snaps, edit, markClean]
  | snapshot => simp [Edit.Snaps, edit, snapshot, encode]

theorem isDirty_of_insert (h : p.insert row = .ok (q, placed)) : q.isDirty = p.isDirty := by
  obtain ⟨-, slot, -, -, rfl⟩ := insert_eq_ok.1 h
  rfl

theorem isDirty_of_delete (h : p.delete row = .ok (q, placed)) : q.isDirty = p.isDirty := by
  obtain ⟨slot, -, -, rfl⟩ := delete_eq_ok.1 h
  rfl

/-- A page bears the mark that it was given last. -/
theorem isDirty_edit (p : Page) (e : Edit) : (p.edit e).isDirty = e.remark p.isDirty := by
  cases e with
  | insert row =>
    cases h : p.insert row.val with
    | error e => rw [edit, InPlace.run_insert_of_error h, Edit.remark]
    | ok result =>
      obtain ⟨place, -, hrun⟩ := InPlace.run_insert_of_ok h
      rw [edit, hrun, Edit.remark, isDirty_of_insert h]
  | delete row =>
    cases h : p.delete row with
    | error e => rw [edit, InPlace.run_delete_of_error h, Edit.remark]
    | ok result => rw [edit, InPlace.run_delete_of_ok h, Edit.remark, isDirty_of_delete h]
  | mark dirty owner? => cases dirty <;> rfl
  | snapshot => rfl

/-- What a page goes back to is told by its snapshot and its shape. -/
theorem Akin.beforeImage_eq (h : p.Akin q) (hbefore : q.before = p.before) :
    q.beforeImage = p.beforeImage := by
  rw [beforeImage, h.id_eq, h.schema_eq, h.layout_eq, hbefore, beforeImage]

/-- Only a call that takes a snapshot changes what a page goes back to. -/
theorem Sound.beforeImage_edit {e : Edit} (h : p.Sound) (hkeep : ¬ e.Snaps p.isDirty) :
    (p.edit e).beforeImage = p.beforeImage := by
  refine (h.edit e).2.beforeImage_eq ?_
  rw [before_edit, if_neg hkeep]

/-! ## Any number of calls -/

/-- A page keeps the image of another one, which has its place and shape. -/
structure Recalls (p s : Page) : Prop where
  sound : s.Sound
  akin : s.Akin p
  before_eq : p.before = s.encode

theorem Recalls.self (h : p.Sound) (hbefore : p.before = p.encode) : p.Recalls p :=
  ⟨h, ⟨rfl, rfl, rfl⟩, hbefore⟩

/-- A page that was just read keeps the image of itself. -/
theorem recalls_of_decode {image : Bytes} (h : decode page schema pageSize image = .ok p) :
    p.Recalls p := by
  refine .self (.of_decode h) ?_
  obtain ⟨_, _, _, -, -, -, rfl⟩ := decode_eq_ok.1 h
  rfl

/-- After a call a page keeps the image of itself, or the one that it kept. -/
theorem Recalls.edit {s : Page} (h : p.Recalls s) (hp : p.Sound) (e : Edit) :
    (p.edit e).Recalls (if e.Snaps p.isDirty then p.edit e else s) := by
  have hbefore := before_edit p e
  obtain ⟨hafter, hakin⟩ := hp.edit e
  split at hbefore
  · next hsnaps =>
    rw [if_pos hsnaps]
    exact .self hafter hbefore
  · next hkeep =>
    rw [if_neg hkeep]
    exact ⟨h.sound, ⟨hakin.id_eq.trans h.akin.id_eq, hakin.schema_eq.trans h.akin.schema_eq,
      hakin.layout_eq.trans h.akin.layout_eq⟩, hbefore.trans h.before_eq⟩

/-- Where rows can be told from their bytes, the image that is kept reads back. -/
theorem Recalls.beforeImage {s : Page} (h : p.Recalls s) (hs : s.schema.Valid)
    (hsize : s.layout.pageSize < 0x100000000) : p.beforeImage = .ok s.reread := by
  rw [Page.beforeImage, h.akin.id_eq, h.akin.schema_eq, h.akin.layout_eq, h.before_eq]
  exact decode_encode h.sound hs hsize

/-- The mark of a page that was clean is told by the calls. -/
theorem isDirty_foldl (h : start.isDirty = false) (edits : List Edit) :
    (edits.foldl edit start).isDirty = Edit.marked edits := by
  induction edits using List.reverseRecOn with
  | nil => exact h
  | append_singleton edits e ih =>
    rw [List.foldl_append, List.foldl_cons, List.foldl_nil, isDirty_edit, ih, Edit.marked,
      Edit.marked, List.foldl_append, List.foldl_cons, List.foldl_nil]

theorem LastSnap.of_snaps {edits : List Edit} {e : Edit} (h : e.Snaps (Edit.marked edits)) :
    LastSnap (edits ++ [e]) [] := ⟨.inr ⟨edits, e, rfl, h⟩, by simp⟩

theorem LastSnap.concat {earlier later : List Edit} {e : Edit} (h : LastSnap earlier later)
    (hkeep : ¬ e.Snaps (Edit.marked (earlier ++ later))) : LastSnap earlier (later ++ [e]) := by
  refine ⟨h.taken, fun before e' after heq => ?_⟩
  rcases List.eq_nil_or_concat after with rfl | ⟨after, last, rfl⟩
  · obtain ⟨rfl, heq'⟩ := List.append_inj' heq rfl
    obtain rfl : e = e' := by simpa using heq'
    exact hkeep
  · rw [List.concat_eq_append, ← List.cons_append, ← List.append_assoc] at heq
    exact h.none_since before e' after (List.append_inj' heq rfl).1

/-- The image that a page keeps is the one that it had when it took its last snapshot. -/
theorem recalls_foldl (hstart : start.Sound) (hclean : start.isDirty = false)
    (hrecalls : start.Recalls start) (edits : List Edit) :
    (edits.foldl edit start).Sound ∧ ∃ earlier later, edits = earlier ++ later ∧
      LastSnap earlier later ∧ (edits.foldl edit start).Recalls (earlier.foldl edit start) := by
  induction edits using List.reverseRecOn with
  | nil => exact ⟨hstart, [], [], rfl, ⟨.inl rfl, by simp⟩, hrecalls⟩
  | append_singleton edits e ih =>
    obtain ⟨hsound, earlier, later, hedits, hlast, hkept⟩ := ih
    have hafter := hkept.edit hsound e
    rw [isDirty_foldl hclean] at hafter
    rw [List.foldl_append, List.foldl_cons, List.foldl_nil]
    refine ⟨(hsound.edit e).1, ?_⟩
    by_cases hsnaps : e.Snaps (Edit.marked edits)
    · rw [if_pos hsnaps] at hafter
      refine ⟨edits ++ [e], [], (List.append_nil _).symm, .of_snaps hsnaps, ?_⟩
      rwa [List.foldl_append, List.foldl_cons, List.foldl_nil]
    · rw [if_neg hsnaps] at hafter
      refine ⟨earlier, later ++ [e], ?_, hlast.concat (hedits ▸ hsnaps), hafter⟩
      rw [hedits, List.append_assoc]

/-- Whatever calls are made of a page, it can go back, and it goes back to what it held when it was
made, when it was last told to take a snapshot, or when it was last marked dirty while it was clean,
whichever came last. It is clean from the beginning and whenever it was last marked clean. Marking
it dirty again, for whomever, and marking it clean changes nothing about what it goes back to. -/
theorem beforeImage_of_edits (hs : schema.Valid) (hsize : pageSize < 0x100000000)
    (hstart : Page.empty page schema pageSize = .ok start ∨
      ∃ image, Page.decode page schema pageSize image = .ok start) (edits : List Edit) :
    (edits.foldl edit start).isDirty = Edit.marked edits ∧
      (∃ earlier later, edits = earlier ++ later ∧ LastSnap earlier later ∧
        ∃ q, (edits.foldl edit start).beforeImage = .ok q ∧
          q.Restores (earlier.foldl edit start)) ∧
      (∀ owner?, (edits.foldl edit start).isDirty = true →
        ((edits.foldl edit start).edit (.mark true owner?)).beforeImage =
          (edits.foldl edit start).beforeImage) ∧
      ∀ owner?, ((edits.foldl edit start).edit (.mark false owner?)).beforeImage =
        (edits.foldl edit start).beforeImage := by
  obtain ⟨image, hdecode⟩ : ∃ image, Page.decode page schema pageSize image = .ok start :=
    hstart.elim (fun h => ⟨_, h⟩) fun h => h
  have hclean := isDirty_of_decode hdecode
  obtain ⟨hsound, earlier, later, hedits, hlast, hkept⟩ :=
    recalls_foldl (.of_decode hdecode) hclean (recalls_of_decode hdecode) edits
  obtain ⟨-, -, hschema, hpageSize⟩ := ((Handled.decode hdecode).foldl earlier).sound
  have himage := hkept.beforeImage (hschema ▸ hs) (hpageSize ▸ hsize)
  refine ⟨isDirty_foldl hclean edits,
    ⟨earlier, later, hedits, hlast, _, himage, restores_reread _⟩, ?_, ?_⟩
  · intro owner? hdirty
    exact hsound.beforeImage_edit fun hsnaps => by simp [hsnaps.2] at hdirty
  · intro owner?
    exact hsound.beforeImage_edit fun hsnaps => by cases hsnaps.1

/-- A page is marked dirty by two transactions, one after the other, and then clean. It goes back to
what it held when the first one marked it. When a third one marks it, the page was clean, and goes
back to what it holds then. -/
theorem beforeImage_of_edits_marked_again :
    ∃ (start p q r : Page) (five six : { row : Row // row.Valid }) (edits : List Edit),
      Page.empty ⟨7, 0⟩ ⟨[⟨.int, none⟩]⟩ 9 = .ok start ∧
      five.val = ⟨⟨[⟨.int, none⟩]⟩, [.int 5], none⟩ ∧
      six.val = ⟨⟨[⟨.int, some "n"⟩]⟩, [.int 6], none⟩ ∧
      edits = [.insert five, .mark true (some ⟨1⟩), .insert six, .mark true (some ⟨2⟩),
        .delete five.val] ∧
      p = edits.foldl edit start ∧ p.cells = [none, some [.int 6]] ∧ p.isDirty = true ∧
      p.dirtier? = some ⟨2⟩ ∧ p.beforeImage = .ok q ∧ q.cells = [some [.int 5], none] ∧
      (p.edit (.mark true (some ⟨3⟩))).beforeImage = .ok q ∧
      (p.edit (.mark false none)).beforeImage = .ok q ∧
      (p.edit (.mark false none)).isDirty = false ∧
      ((p.edit (.mark false none)).edit (.mark true (some ⟨3⟩))).beforeImage = .ok r ∧
      r.cells = [none, some [.int 6]] ∧
      ∃ earlier later, edits = earlier ++ later ∧ LastSnap earlier later ∧
        q.Restores (earlier.foldl edit start) := by
  obtain ⟨start, hstart⟩ : ∃ start, Page.empty ⟨7, 0⟩ ⟨[⟨.int, none⟩]⟩ 9 = .ok start := ⟨_, rfl⟩
  obtain ⟨five, hfive⟩ : ∃ five : { row : Row // row.Valid }, five =
    ⟨_, Row.valid_of_ofValues (show Row.ofValues ⟨[⟨.int, none⟩]⟩ [.int 5] = _ from rfl)⟩ :=
    ⟨_, rfl⟩
  obtain ⟨six, hsix⟩ : ∃ six : { row : Row // row.Valid }, six =
    ⟨_, Row.valid_of_ofValues (show Row.ofValues ⟨[⟨.int, some "n"⟩]⟩ [.int 6] = _ from rfl)⟩ :=
    ⟨_, rfl⟩
  obtain ⟨edits, hedits⟩ : ∃ edits : List Edit, edits = [.insert five, .mark true (some ⟨1⟩),
    .insert six, .mark true (some ⟨2⟩), .delete five.val] := ⟨_, rfl⟩
  have hfacts (edits : List Edit) :=
    beforeImage_of_edits (by decide) (by decide) (.inl hstart) edits
  obtain ⟨hmark, ⟨earlier, later, hsplit, hlast, q, hq, hrestores⟩, hagain, hcleaned⟩ :=
    hfacts edits
  have hdirty : (edits.foldl edit start).isDirty = true := by
    rw [hmark, hedits]
    rfl
  obtain ⟨hclean, -⟩ := hfacts (edits ++ [.mark false none])
  obtain ⟨-, ⟨_, _, -, -, r, hr, -⟩, -⟩ :=
    hfacts (edits ++ [.mark false none, .mark true (some ⟨3⟩)])
  rw [List.foldl_append] at hclean hr
  refine ⟨start, _, q, r, five, six, edits, hstart, hfive ▸ rfl, hsix ▸ rfl, hedits, rfl, ?_,
    hdirty, ?_, hq, ?_, (hagain _ hdirty).trans hq, (hcleaned _).trans hq, ?_, hr, ?_,
    earlier, later, hsplit, hlast, hrestores⟩
  · cases hstart
    subst hedits hfive hsix
    rfl
  · cases hstart
    subst hedits hfive hsix
    rfl
  · cases hstart
    subst hedits hfive hsix
    cases hq
    rfl
  · refine hclean.trans ?_
    rw [hedits]
    rfl
  · cases hstart
    subst hedits hfive hsix
    cases hr
    rfl

end Page

end RowStore
