import Mathlib.Data.Int.Order.Basic
import Mathlib.Logic.Function.Basic
import RustDemo.Collections.AutoIncrement
import RustDemo.Transition.System

/-!
# The posts table

`create_post` runs two statements on its connection: it inserts a row, then it
selects the row with the largest id.  Each statement is one step, and the steps
of the calls on other connections of the pool may fall between the two.

The database is not here.  It is taken to refuse, and not to cut, a title or a
body that its column has no room for, as MySQL does in its strict mode; so a row
has the arguments of its call.  An insert that fails uses no id.
-/

namespace RustDemo.MysqlDemo

open RustDemo.Collections RustDemo.Transition

structure Post where
  id : Int
  title : String
  body : String
  published : Bool
deriving DecidableEq

structure NewPost where
  title : String
  body : String

/-- The rows of `posts`; `id` is the primary key. -/
abbrev Posts := AutoIncrement Post.id

namespace Posts

/-- The largest number of the column `id`. -/
def maxId : Int := 2147483647

/--
`INSERT` of a new post, which is not published, and the row it makes; an error
when the ids are used up.
-/
def insertInto (posts : Posts) (new : NewPost) : Option (Post × Posts) :=
  if posts.next ≤ maxId then
    let post : Post := ⟨posts.next, new.title, new.body, false⟩
    some (post, AutoIncrement.insert posts post (posts.next + 1) rfl (Int.lt_succ posts.next))
  else none

/-- `posts.order(id.desc()).first(conn)` -/
def firstByIdDesc (posts : Posts) : Option Post := posts.orderDesc.head?

end Posts

/--
A call of `create_post`: before it, before its insert, before its select, or
behind it.  The ghost field `own` is the row that it inserted.
-/
inductive Call (γ : Type) where
  | absent
  | connected (conn : γ) (new : NewPost)
  | inserted (conn : γ) (new : NewPost) (own : Post)
  | returned (new : NewPost) (own post : Post)
  | panicked

def Call.wrote {γ : Type} : Call γ → Option (NewPost × Post)
  | .inserted _ new own | .returned new own _ => some (new, own)
  | _ => none

def Call.conn? {γ : Type} : Call γ → Option γ
  | .connected conn _ | .inserted conn _ _ => some conn
  | _ => none

/--
The database, the connections `γ` of the pool and the calls `κ` that use them.
The ghost field `last` is the call that inserted the last row.
-/
structure Db (κ γ : Type) where
  posts : Posts
  pool : γ → Option κ
  calls : κ → Call γ
  last : Option κ

/-- A call begins on a connection, takes its next statement, or has an error at it. -/
inductive Event (κ γ : Type) where
  | begin (k : κ) (conn : γ) (title body : String)
  | insert (k : κ)
  | select (k : κ)
  | fail (k : κ)

namespace Db

variable {κ γ : Type} [DecidableEq κ] [DecidableEq γ]

def new (posts : Posts) : Db κ γ := ⟨posts, fun _ => none, fun _ => .absent, none⟩

/-- The call gets its arguments and a connection that no other call uses. -/
def connect (db : Db κ γ) (k : κ) (conn : γ) (new : NewPost) : Db κ γ :=
  { db with pool := Function.update db.pool conn (some k),
            calls := Function.update db.calls k (.connected conn new) }

/-- The insert of the call has made the row `own`. -/
def store (db : Db κ γ) (k : κ) (conn : γ) (new : NewPost) (own : Post) (posts : Posts) : Db κ γ :=
  { db with posts := posts, last := some k,
            calls := Function.update db.calls k (.inserted conn new own) }

def finish (db : Db κ γ) (k : κ) (conn : γ) (call : Call γ) : Db κ γ :=
  { db with pool := Function.update db.pool conn none, calls := Function.update db.calls k call }

/-- The insert of `create_post`; an error is a panic of `expect`. -/
def insertInto (db : Db κ γ) (k : κ) (conn : γ) (new : NewPost) : Db κ γ :=
  match db.posts.insertInto new with
  | some (own, posts) => db.store k conn new own posts
  | none => db.finish k conn .panicked

/-- The select of `create_post`; no row is a panic of `unwrap`. -/
def selectFirst (db : Db κ γ) (k : κ) (conn : γ) (new : NewPost) (own : Post) : Db κ γ :=
  match db.posts.firstByIdDesc with
  | some post => db.finish k conn (.returned new own post)
  | none => db.finish k conn .panicked

def step? (db : Db κ γ) : Event κ γ → Option (Db κ γ)
  | .begin k conn title body =>
      match db.calls k, db.pool conn with
      | .absent, none => some (db.connect k conn ⟨title, body⟩)
      | _, _ => none
  | .insert k =>
      match db.calls k with
      | .connected conn new => some (db.insertInto k conn new)
      | _ => none
  | .select k =>
      match db.calls k with
      | .inserted conn new own => some (db.selectFirst k conn new own)
      | _ => none
  | .fail k =>
      match (db.calls k).conn? with
      | some conn => some (db.finish k conn .panicked)
      | none => none

/-- Any number of calls on the connections of the pool, in every order of their statements. -/
def system (posts : Posts) : System (Db κ γ) (Event κ γ) := ⟨new posts, step?⟩

/-- What a step does to the calls, and to the rows. -/
inductive Stepped (db : Db κ γ) : Event κ γ → Db κ γ → Prop where
  | began {k : κ} {conn : γ} {title body : String} (absent : db.calls k = .absent)
      (free : db.pool conn = none) :
      Stepped db (.begin k conn title body) (db.connect k conn ⟨title, body⟩)
  | inserted {k : κ} {conn : γ} {new : NewPost} {own : Post} {posts : Posts}
      (connected : db.calls k = .connected conn new)
      (stored : db.posts.insertInto new = some (own, posts)) :
      Stepped db (.insert k) (db.store k conn new own posts)
  | returned {k : κ} {conn : γ} {new : NewPost} {own post : Post}
      (inserted : db.calls k = .inserted conn new own) (first : db.posts.firstByIdDesc = some post) :
      Stepped db (.select k) (db.finish k conn (.returned new own post))
  | missed {k : κ} {conn : γ} {new : NewPost} {own : Post}
      (inserted : db.calls k = .inserted conn new own) (empty : db.posts.firstByIdDesc = none) :
      Stepped db (.select k) (db.finish k conn .panicked)
  | panicked {event : Event κ γ} {k : κ} {conn : γ} (ran : (db.calls k).conn? = some conn)
      (unselected : ∀ j, event ≠ .select j) : Stepped db event (db.finish k conn .panicked)

theorem stepped_of_step {db next : Db κ γ} {event : Event κ γ} (step : db.step? event = some next) :
    db.Stepped event next := by
  cases event with
  | begin k conn title body =>
      rw [step?] at step
      split at step
      · rename_i absent free
        cases step
        exact .began absent free
      · cases step
  | insert k =>
      rw [step?] at step
      split at step
      · rename_i connected
        cases step
        unfold insertInto
        split
        · rename_i stored
          exact .inserted connected stored
        · exact .panicked (congrArg Call.conn? connected) nofun
      · cases step
  | select k =>
      rw [step?] at step
      split at step
      · rename_i inserted
        cases step
        unfold selectFirst
        split
        · rename_i first
          exact .returned inserted first
        · rename_i empty
          exact .missed inserted empty
      · cases step
  | fail k =>
      rw [step?] at step
      split at step
      · rename_i ran
        cases step
        exact .panicked ran nofun
      · cases step

theorem insertInto_eq {posts after : Posts} {new : NewPost} {own : Post}
    (stored : posts.insertInto new = some (own, after)) :
    own = ⟨posts.next, new.title, new.body, false⟩ ∧
      (∀ other, other ∈ after.rows ↔ other ∈ posts.rows ∨ other = own) ∧
      after.firstByIdDesc = some own := by
  unfold Posts.insertInto at stored
  split at stored
  · cases stored
    exact ⟨rfl, fun other => AutoIncrement.mem_insert, AutoIncrement.head?_orderDesc_insert⟩
  · cases stored

/--
The rows that the calls inserted are in the table and are different, and the
one that a select would find is the own row exactly of the call that inserted last.
-/
structure Kept (db : Db κ γ) : Prop where
  stored : ∀ k new own, (db.calls k).wrote = some (new, own) →
    own ∈ db.posts.rows ∧ own.title = new.title ∧ own.body = new.body
  apart : ∀ j k first second, (db.calls j).wrote = some first → (db.calls k).wrote = some second →
    first.2.id = second.2.id → j = k
  latest : ∀ k conn new own, db.calls k = .inserted conn new own →
    (db.posts.firstByIdDesc = some own ↔ db.last = some k)

omit [DecidableEq κ] [DecidableEq γ] in
theorem kept_new (posts : Posts) : (new posts : Db κ γ).Kept := ⟨nofun, nofun, nofun⟩

omit [DecidableEq κ] [DecidableEq γ] in
theorem Kept.keep {db next : Db κ γ} (kept : db.Kept) (posts : next.posts = db.posts)
    (last : next.last = db.last)
    (wrote : ∀ k row, (next.calls k).wrote = some row → (db.calls k).wrote = some row)
    (inserted : ∀ k conn new own, next.calls k = .inserted conn new own →
      db.calls k = .inserted conn new own) : next.Kept where
  stored k new own row := by
    rw [posts]
    exact kept.stored k new own (wrote k (new, own) row)
  apart j k first second there here :=
    kept.apart j k first second (wrote j first there) (wrote k second here)
  latest k conn new own before := by
    rw [posts, last]
    exact kept.latest k conn new own (inserted k conn new own before)

omit [DecidableEq γ] in
theorem Kept.store {db : Db κ γ} (kept : db.Kept) {k : κ} {conn : γ} {new : NewPost} {own : Post}
    {posts : Posts} (stored : db.posts.insertInto new = some (own, posts)) :
    (db.store k conn new own posts).Kept := by
  obtain ⟨made, rows, first⟩ := insertInto_eq stored
  -- an earlier row is another one, because its id is below the next one
  have other : ∀ j row, (db.calls j).wrote = some row → row.2.id ≠ own.id := by
    intro j row wrote
    have there := (kept.stored j row.1 row.2 wrote).1
    have below := db.posts.below row.2 there
    rw [made]
    exact Int.ne_of_lt below
  constructor
  · refine (Function.forall_update_iff db.calls fun j call => ∀ newJ ownJ,
      call.wrote = some (newJ, ownJ) →
        ownJ ∈ posts.rows ∧ ownJ.title = newJ.title ∧ ownJ.body = newJ.body).mpr ⟨?_, ?_⟩
    · rintro _ _ ⟨⟩
      exact ⟨(rows own).mpr (Or.inr rfl), by rw [made], by rw [made]⟩
    · intro j _ newJ ownJ wrote
      obtain ⟨there, title, body⟩ := kept.stored j newJ ownJ wrote
      exact ⟨(rows ownJ).mpr (Or.inl there), title, body⟩
  · intro i j firstRow secondRow firstWrote secondWrote same
    dsimp only [Db.store] at firstWrote secondWrote
    by_cases firstHere : i = k <;> by_cases secondHere : j = k
    · rw [firstHere, secondHere]
    · subst firstHere
      rw [Function.update_self] at firstWrote
      rw [Function.update_of_ne secondHere] at secondWrote
      cases firstWrote
      exact absurd same.symm (other j secondRow secondWrote)
    · subst secondHere
      rw [Function.update_self] at secondWrote
      rw [Function.update_of_ne firstHere] at firstWrote
      cases secondWrote
      exact absurd same (other i firstRow firstWrote)
    · rw [Function.update_of_ne firstHere] at firstWrote
      rw [Function.update_of_ne secondHere] at secondWrote
      exact kept.apart i j firstRow secondRow firstWrote secondWrote same
  · refine (Function.forall_update_iff db.calls fun j call => ∀ connJ newJ ownJ,
      call = .inserted connJ newJ ownJ →
        (posts.firstByIdDesc = some ownJ ↔ some k = some j)).mpr ⟨?_, ?_⟩
    · rintro _ _ _ ⟨⟩
      exact iff_of_true first rfl
    · intro j apart connJ newJ ownJ before
      have foreign := other j (newJ, ownJ) (congrArg Call.wrote before)
      refine iff_of_false ?_ fun last => apart (Option.some_inj.mp last).symm
      intro found
      cases found.symm.trans first
      exact foreign rfl

omit [DecidableEq γ] in
theorem Kept.setCall {db next : Db κ γ} (kept : db.Kept) {k : κ} {call : Call γ}
    (posts : next.posts = db.posts) (last : next.last = db.last)
    (calls : next.calls = Function.update db.calls k call)
    (wrote : ∀ row, call.wrote = some row → (db.calls k).wrote = some row)
    (uninserted : ∀ conn new own, call ≠ .inserted conn new own) : next.Kept := by
  refine kept.keep posts last ?_ ?_
  · rw [calls]
    exact (Function.forall_update_iff db.calls fun j call =>
      ∀ row, call.wrote = some row → (db.calls j).wrote = some row).mpr ⟨wrote, fun j _ row => id⟩
  · rw [calls]
    exact (Function.forall_update_iff db.calls fun j call => ∀ conn new own,
      call = .inserted conn new own → db.calls j = .inserted conn new own).mpr
        ⟨fun conn new own set => absurd set (uninserted conn new own), fun j _ conn new own => id⟩

theorem Kept.step {db next : Db κ γ} {event : Event κ γ} (kept : db.Kept)
    (stepped : db.Stepped event next) : next.Kept := by
  cases stepped with
  | began absent free => exact kept.setCall rfl rfl rfl nofun nofun
  | inserted connected stored => exact kept.store stored
  | returned inserted first =>
      refine kept.setCall rfl rfl rfl (fun row wrote => ?_) nofun
      rw [inserted]
      exact wrote
  | missed inserted empty => exact kept.setCall rfl rfl rfl nofun nofun
  | panicked ran unselected => exact kept.setCall rfl rfl rfl nofun nofun

omit [DecidableEq κ] [DecidableEq γ] in
theorem Kept.finds {db : Db κ γ} (kept : db.Kept) {k : κ} {row : NewPost × Post}
    (wrote : (db.calls k).wrote = some row) : db.posts.firstByIdDesc ≠ none := by
  intro empty
  have there := (kept.stored k row.1 row.2 wrote).1
  rw [Posts.firstByIdDesc, List.head?_eq_none_iff, AutoIncrement.orderDesc_nil_iff] at empty
  rw [empty] at there
  exact List.not_mem_nil there

/-! ## Own rows -/

/-- Every call that has returned has its own row, with its arguments, and an id of its own. -/
structure OwnRows (db : Db κ γ) : Prop where
  own : ∀ k new own post, db.calls k = .returned new own post →
    post = own ∧ post.title = new.title ∧ post.body = new.body
  distinct : ∀ j k newJ newK ownJ ownK first second, db.calls j = .returned newJ ownJ first →
    db.calls k = .returned newK ownK second → first.id = second.id → j = k

/-- A select comes before any other insert than the one of its call. -/
def SelectsOwn (db : Db κ γ) : Event κ γ → Prop
  | .select k => db.last = some k
  | _ => True

instance (db : Db κ γ) (event : Event κ γ) : Decidable (SelectsOwn db event) :=
  match event with
  | .select k => inferInstanceAs (Decidable (db.last = some k))
  | .begin _ _ _ _ | .insert _ | .fail _ => .isTrue trivial

omit [DecidableEq κ] [DecidableEq γ] in
theorem Kept.ownRows_iff {db : Db κ γ} (kept : db.Kept) :
    db.OwnRows ↔ ∀ k new own post, db.calls k = .returned new own post → post = own := by
  constructor
  · intro rows k new own post returned
    exact (rows.own k new own post returned).1
  · intro same
    constructor
    · intro k new own post returned
      have own := same k new own post returned
      subst own
      obtain ⟨_, title, body⟩ := kept.stored k new post (congrArg Call.wrote returned)
      exact ⟨rfl, title, body⟩
    · intro j k newJ newK ownJ ownK first second returnedJ returnedK sameId
      rw [same j newJ ownJ first returnedJ, same k newK ownK second returnedK] at sameId
      exact kept.apart j k (newJ, ownJ) (newK, ownK) (congrArg Call.wrote returnedJ)
        (congrArg Call.wrote returnedK) sameId

theorem Stepped.ownRows_iff {db next : Db κ γ} {event : Event κ γ} (stepped : db.Stepped event next)
    (kept : db.Kept) (rows : db.OwnRows) : next.OwnRows ↔ SelectsOwn db event := by
  have before := kept.ownRows_iff.mp rows
  have others : ∀ k call, next.calls = Function.update db.calls k call →
      (∀ new own post, call = .returned new own post → post = own) → next.OwnRows := by
    intro k call calls same
    rw [(kept.step stepped).ownRows_iff, calls]
    exact (Function.forall_update_iff db.calls fun j call => ∀ new own post,
      call = .returned new own post → post = own).mpr ⟨same, fun j _ => before j⟩
  cases stepped with
  | began absent free => exact iff_of_true (others _ _ rfl nofun) trivial
  | inserted connected stored => exact iff_of_true (others _ _ rfl nofun) trivial
  | @returned k conn new own post inserted first =>
      show _ ↔ db.last = some k
      rw [← kept.latest k conn new own inserted, first, Option.some_inj]
      constructor
      · intro after
        exact (after.own k new own post (Function.update_self ..)).1
      · rintro rfl
        refine others _ _ rfl ?_
        rintro _ _ _ ⟨⟩
        rfl
  | missed inserted empty => exact absurd empty (kept.finds (congrArg Call.wrote inserted))
  | @panicked event k conn ran unselected =>
      refine iff_of_true (others _ _ rfl nofun) ?_
      cases event with
      | select j => exact absurd rfl (unselected j)
      | _ => trivial

/--
In every run of any number of calls, all calls that return have returned their
own rows exactly if no other insert came between the statements of one of them.
-/
theorem ownRows_iff_selectsOwn (posts : Posts) {history : List (Event κ γ)} {db : Db κ γ}
    (run : (system posts).run? history = some db) :
    (system posts).Always OwnRows history ↔ (system posts).Meets SelectsOwn history := by
  refine (system posts).always_iff_meets Kept ((kept_new posts).ownRows_iff.mpr nofun)
    (kept_new posts) ?_ ?_ run
  · intro db event next kept step
    exact kept.step (stepped_of_step step)
  · intro db event next kept rows step
    exact (stepped_of_step step).ownRows_iff kept rows

def created : Posts := ⟨[], 1, List.nodup_nil, fun _ there => absurd there List.not_mem_nil⟩

/-- One call after the other. -/
theorem ownRows_iff_selectsOwn_sequential :
    (system created).Always OwnRows
      [.begin 0 () "one" "first", .insert 0, .select 0, .begin 1 () "two" "second", .insert 1, .select 1] :=
  (ownRows_iff_selectsOwn created rfl).mpr (by decide)

/-- Both calls insert before one of them selects: it returns the row of the other one. -/
theorem other_row_returned :
    ¬ ∀ (history : List (Event Nat Bool)) (db : Db Nat Bool),
      (system created).run? history = some db → db.OwnRows := by
  intro own
  have rows := own [.begin 0 false "one" "first", .begin 1 true "two" "second", .insert 0, .insert 1, .select 0]
    _ rfl
  have same := (rows.own 0 ⟨"one", "first"⟩ ⟨1, "one", "first", false⟩ ⟨2, "two", "second", false⟩ rfl).1
  revert same
  decide

/-- A call that runs has its connection from the pool. -/
def Pooled (db : Db κ γ) : Prop :=
  ∀ k conn, (db.calls k).conn? = some conn → db.pool conn = some k

theorem Pooled.finish {db : Db κ γ} (pooled : db.Pooled) {k : κ} {conn : γ} {call : Call γ}
    (ran : (db.calls k).conn? = some conn) (ended : call.conn? = none) :
    (db.finish k conn call).Pooled := by
  intro j other uses
  dsimp only [Db.finish] at uses ⊢
  by_cases here : j = k
  · rw [here, Function.update_self, ended] at uses
    cases uses
  · rw [Function.update_of_ne here] at uses
    have given := pooled j other uses
    have apart : other ≠ conn := by
      rintro rfl
      exact here (Option.some_inj.mp (given.symm.trans (pooled k other ran)))
    rw [Function.update_of_ne apart]
    exact given

theorem Pooled.step {db next : Db κ γ} {event : Event κ γ} (pooled : db.Pooled)
    (stepped : db.Stepped event next) : next.Pooled := by
  cases stepped with
  | @began k conn title body absent free =>
      intro j other uses
      dsimp only [Db.connect] at uses ⊢
      by_cases here : j = k
      · rw [here, Function.update_self] at uses
        cases uses
        rw [here, Function.update_self]
      · rw [Function.update_of_ne here] at uses
        have given := pooled j other uses
        have apart : other ≠ conn := by
          rintro rfl
          cases free.symm.trans given
        rw [Function.update_of_ne apart]
        exact given
  | @inserted k conn new own posts connected stored =>
      refine (Function.forall_update_iff db.calls fun j call => ∀ other,
        call.conn? = some other → db.pool other = some j).mpr ⟨?_, fun j _ => pooled j⟩
      rintro _ ⟨⟩
      exact pooled k conn (congrArg Call.conn? connected)
  | returned inserted first => exact pooled.finish (congrArg Call.conn? inserted) rfl
  | missed inserted empty => exact pooled.finish (congrArg Call.conn? inserted) rfl
  | panicked ran unselected => exact pooled.finish ran rfl

/-- The call that is between its statements is the one that inserted last. -/
def Alone (db : Db κ γ) : Prop :=
  ∀ k conn new own, db.calls k = .inserted conn new own → db.last = some k

theorem Alone.step [Subsingleton γ] {db next : Db κ γ} {event : Event κ γ} (alone : db.Alone)
    (pooled : db.Pooled) (stepped : db.Stepped event next) : next.Alone := by
  have keeps : ∀ k call, next.calls = Function.update db.calls k call → next.last = db.last →
      (∀ conn new own, call ≠ .inserted conn new own) → next.Alone := by
    intro k call calls last uninserted
    rw [Alone, calls, last]
    exact (Function.forall_update_iff db.calls fun j call => ∀ conn new own,
      call = .inserted conn new own → db.last = some j).mpr
        ⟨fun conn new own set => absurd set (uninserted conn new own), fun j _ => alone j⟩
  cases stepped with
  | began absent free => exact keeps _ _ rfl rfl nofun
  | @inserted k conn new own posts connected stored =>
      intro j other newJ ownJ before
      dsimp only [Db.store] at before ⊢
      by_cases here : j = k
      · rw [here]
      · rw [Function.update_of_ne here] at before
        have given := pooled j other (congrArg Call.conn? before)
        rw [Subsingleton.elim other conn, pooled k conn (congrArg Call.conn? connected)] at given
        exact given
  | returned inserted first => exact keeps _ _ rfl rfl nofun
  | missed inserted empty => exact keeps _ _ rfl rfl nofun
  | panicked ran unselected => exact keeps _ _ rfl rfl nofun

/-- On one connection the calls come one after the other. -/
theorem selectsOwn_of_one_connection [Subsingleton γ] {posts : Posts} {history : List (Event κ γ)}
    {db : Db κ γ} (run : (system posts).run? history = some db) :
    (system posts).Meets SelectsOwn history := by
  refine (system posts).meets_of_invariant (fun db => db.Pooled ∧ db.Alone) ⟨nofun, nofun⟩ ?_ ?_ run
  · rintro db event next ⟨pooled, alone⟩ step
    have stepped := stepped_of_step step
    exact ⟨pooled.step stepped, alone.step pooled stepped⟩
  · rintro db event next ⟨_, alone⟩ step
    cases stepped_of_step step with
    | returned inserted first => exact alone _ _ _ _ inserted
    | missed inserted empty => exact alone _ _ _ _ inserted
    | began absent free => trivial
    | inserted connected stored => trivial
    | panicked ran unselected =>
        cases event with
        | select j => exact absurd rfl (unselected j)
        | _ => trivial

end Db

end RustDemo.MysqlDemo
