import RowStore.Proofs.Database.Unfolding

/-!
# Sessions

A session is a sequence of requests to a database, each of which may fail: the calls, opening and
registering tables at any time, and changes that the holders of pages make to them. An itemized
session lists the moves that its requests come down to.
-/

namespace RowStore

inductive Request where
  | call (c : Call)
  | edit (h : Handle) (f : Page → Page)
  | openFile (folder : Path) (name : String) (schema : Schema) (pageSize : Nat)
  | openTable (folder : Path) (file : String) (schema : Schema) (name primaryKey : String)
  | addTable (r : Registration)

namespace Request

variable {σ : Type}

def perform (locking : LockManager σ) : Request → Action (Database σ) Unit
  | .call c => (fun _ => ()) <$> Database.perform locking c
  | .edit h f => Database.onCache (.update fun c => c.modify h f)
  | .openFile folder name schema pageSize =>
    (fun _ => ()) <$> Database.openFile folder name schema pageSize
  | .openTable folder file schema name primaryKey =>
    (fun _ => ()) <$> Database.openTable folder file schema name primaryKey
  | .addTable r => Database.addTable r

/-- What is asked of the holder of a page. -/
def Permitted (c : Cache) : Request → Prop
  | .edit h f => c.MayEdit h f
  | _ => True

/-- A request that neither opens nor registers a table. -/
def LeavesTables : Request → Prop
  | .call _ | .edit .. => True
  | _ => False

end Request

/-- A request and its answer, with the databases before and after. -/
structure Exchange (σ : Type) where
  before : Database σ
  request : Request
  answer : Except StorageError Unit
  after : Database σ

namespace Exchange

variable {σ : Type} {locking : LockManager σ} {s : Exchange σ}

structure Taken (locking : LockManager σ) (s : Exchange σ) : Prop where
  run_eq : (s.request.perform locking).run s.before = (s.answer, s.after)
  permitted : s.request.Permitted s.before.cache

/-- A call or a change to a page makes moves within the catalog. -/
theorem Taken.splits (h : s.Taken locking) (hbefore : s.before.cache.Housed)
    (hrequest : s.request.LeavesTables) :
    Database.Splits locking s.before.catalog (s.request.perform locking) s.before := by
  have hpermitted := h.permitted
  cases hcase : s.request with
  | call c => exact (Database.divides_perform c).map _ _ hbefore rfl
  | edit hd f =>
    rw [hcase] at hpermitted
    exact .deed (.edit hd f) trivial hpermitted (id_map _)
  | openFile | openTable | addTable =>
    rw [hcase] at hrequest
    exact hrequest.elim

/-- A request that registers a table only where that displaces no other. -/
def RegistersNew (s : Exchange σ) : Prop :=
  match s.request with
  | .addTable r => s.before.catalog.Admits r
  | .openTable folder file schema name primaryKey =>
    ∀ f w, TableFile.openIn folder file schema s.before.settings.pageSize s.before.volume =
      (.ok f, w) → s.before.catalog.Admits ⟨f, name, primaryKey, .none⟩
  | _ => True

/-- Opening a table is opening its file, and registering it if that went well. -/
theorem unfolds_openTable (db : Database σ) (folder : Path) (file : String) (schema : Schema)
    (name primaryKey : String) :
    ∃ moves, Unfolds locking (Database.openTable folder file schema name primaryKey) db moves ∧
      ((∀ f w, TableFile.openIn folder file schema db.settings.pageSize db.volume = (.ok f, w) →
        db.catalog.Admits ⟨f, name, primaryKey, .none⟩) → ∀ m ∈ moves, m.Orderly) := by
  have hopen (pageSize : Nat) : Unfolds locking
      (Database.openFile (σ := σ) folder file schema pageSize) db
      [Move.of locking db (.openFile folder file schema pageSize)] := .deed _ rfl trivial
  have hsize : (Action.ask fun d : Database σ => d.settings.pageSize).run db =
      (.ok db.settings.pageSize, db) := rfl
  rcases hrun : (Database.openFile (σ := σ) folder file schema db.settings.pageSize).run db with
    ⟨e | f, mid⟩
  · refine ⟨_, .bind (.still fun _ => rfl) hsize (.ended (hopen _) hrun), fun _ => ?_⟩
    exact List.forall_mem_singleton.2 trivial
  · have hadd : Unfolds locking (Database.addTable (σ := σ) ⟨f, name, primaryKey, .none⟩) mid
        [Move.of locking mid (.register ⟨f, name, primaryKey, .none⟩)] := .deed _ (id_map _) trivial
    refine ⟨_, .bind (.still fun _ => rfl) hsize
      (.bind (hopen _) hrun (.bind hadd rfl (.still fun _ => rfl))), fun hnew => ?_⟩
    have hopened : TableFile.openIn folder file schema db.settings.pageSize db.volume =
        (.ok f, mid.volume) := by
      have hanswer := congrArg Prod.fst hrun
      have hvolume := congrArg (fun r => r.2.volume) hrun
      exact Prod.ext hanswer hvolume
    have hcatalog : mid.catalog = db.catalog := (congrArg (fun r => r.2.catalog) hrun).symm
    have hadmits : mid.catalog.Admits ⟨f, name, primaryKey, .none⟩ := hcatalog ▸ hnew f _ hopened
    exact List.forall_mem_cons.2 ⟨hadmits, List.forall_mem_singleton.2 trivial⟩

/-- Every request comes down to moves. -/
theorem Taken.unfolds (h : s.Taken locking) (hbefore : s.before.cache.Housed) :
    ∃ moves, Unfolds locking (s.request.perform locking) s.before moves ∧
      (s.RegistersNew → ∀ m ∈ moves, m.Orderly) := by
  have hsplits := h.splits hbefore
  unfold RegistersNew
  cases hrequest : s.request with
  | call | edit =>
    rw [hrequest] at hsplits
    obtain ⟨moves, hmoves, hwithin⟩ := hsplits trivial
    exact ⟨moves, hmoves, fun _ => hmoves.trace.orderly_of_within hwithin⟩
  | openFile folder name schema pageSize =>
    exact ⟨_, .deed (.openFile folder name schema pageSize) (id_map _) trivial,
      fun _ => List.forall_mem_singleton.2 trivial⟩
  | openTable folder file schema name primaryKey =>
    obtain ⟨moves, hmoves, horderly⟩ :=
      unfolds_openTable (σ := σ) s.before folder file schema name primaryKey
    rcases hrun : (Database.openTable folder file schema name primaryKey).run s.before with
      ⟨e | f, mid⟩
    · exact ⟨moves, .ended hmoves hrun, horderly⟩
    · exact ⟨_, .bind hmoves hrun (.still fun _ => rfl), horderly⟩
  | addTable r =>
    exact ⟨_, .deed (.register r) (id_map _) trivial,
      fun hnew => List.forall_mem_singleton.2 hnew⟩

/-- What a request leaves is what its moves lead to. -/
theorem Taken.trace {moves : List (Move σ)} (h : s.Taken locking)
    (hmoves : Unfolds locking (s.request.perform locking) s.before moves) :
    Trace locking s.before moves s.after := by
  have htrace := hmoves.trace
  rw [h.run_eq] at htrace
  exact htrace

end Exchange

/-- The exchanges with a database, the last one first, and the database they lead to. -/
inductive Session {σ : Type} (locking : LockManager σ) (start : Database σ) :
    List (Exchange σ) → Database σ → Prop
  | nil : Session locking start [] start
  | cons {steps : List (Exchange σ)} {s : Exchange σ} : Session locking start steps s.before →
      s.Taken locking → Session locking start (s :: steps) s.after

/-- The moves are those that the exchanges come down to, in the same order. -/
inductive Itemized {σ : Type} (locking : LockManager σ) :
    List (Exchange σ) → List (Move σ) → Prop
  | nil : Itemized locking [] []
  | cons {steps : List (Exchange σ)} {s : Exchange σ} {earlier later : List (Move σ)} :
      Itemized locking steps earlier →
      Unfolds locking (s.request.perform locking) s.before later →
      Itemized locking (s :: steps) (later ++ earlier)

namespace Session

variable {σ : Type} {locking : LockManager σ} {start db : Database σ}
  {steps : List (Exchange σ)} {moves : List (Move σ)}

theorem trace (h : Session locking start steps db) (hmoves : Itemized locking steps moves) :
    Trace locking start moves db := by
  induction h generalizing moves with
  | nil =>
    cases hmoves
    exact .nil
  | cons _ htaken ih =>
    cases hmoves with
    | cons hearlier hlater => exact (ih hearlier).trans (htaken.trace hlater)

/-- Every session can be itemized; where no table displaces another one, by moves of which none
does. -/
theorem itemized_orderly (h : Session locking start steps db) (hstart : start.cache.Housed) :
    ∃ moves, Itemized locking steps moves ∧
      ((∀ s ∈ steps, s.RegistersNew) → ∀ m ∈ moves, m.Orderly) := by
  induction h with
  | nil => exact ⟨[], .nil, by simp⟩
  | cons hsession htaken ih =>
    obtain ⟨earlier, hearlier, horderly⟩ := ih
    obtain ⟨later, hlater, hnew⟩ := htaken.unfolds ((hsession.trace hearlier).housed hstart)
    refine ⟨later ++ earlier, .cons hearlier hlater, fun hsteps => ?_⟩
    obtain ⟨hs, hsteps⟩ := List.forall_mem_cons.1 hsteps
    exact List.forall_mem_append.2 ⟨hnew hs, horderly hsteps⟩

theorem itemized (h : Session locking start steps db) (hstart : start.cache.Housed) :
    ∃ moves, Itemized locking steps moves := by
  obtain ⟨moves, hmoves, -⟩ := h.itemized_orderly hstart
  exact ⟨moves, hmoves⟩

end Session

namespace Database

variable {σ : Type}

/-- Make requests one after another. The exchanges come the last one first, before the given
ones. -/
def converse (locking : LockManager σ) (steps : List (Exchange σ)) (db : Database σ) :
    List Request → List (Exchange σ) × Database σ
  | [] => (steps, db)
  | request :: requests =>
    let result := (request.perform locking).run db
    converse locking (⟨db, request, result.1, result.2⟩ :: steps) result.2 requests

end Database

/-- Requests other than edits may always be made. -/
theorem Session.converse {σ : Type} {locking : LockManager σ} {start db : Database σ}
    {steps : List (Exchange σ)} {requests : List Request} (h : Session locking start steps db)
    (hpermitted : ∀ request ∈ requests, ∀ c, request.Permitted c) :
    Session locking start (Database.converse locking steps db requests).1
      (Database.converse locking steps db requests).2 := by
  induction requests generalizing steps db with
  | nil => exact h
  | cons request requests ih =>
    obtain ⟨hfirst, hrest⟩ := List.forall_mem_cons.1 hpermitted
    exact ih (Session.cons (s := ⟨db, request, _, _⟩) h ⟨rfl, hfirst _⟩) hrest

end RowStore
