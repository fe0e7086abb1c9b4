import RustDemo.MysqlDemo.TablePost

/-!
# The rows of all calls

Whatever the order of the statements, the table has the rows it had and behind
them one for each insert that was made, and `select` shows all of the latter.  A
call that does not return its own row returns a later one of these.  A title or
a body that is too long is refused and not cut, and a failed insert uses no id,
so that the ids of the new rows have no gap.
-/

namespace RustDemo.MysqlDemo

open RustDemo.Collections RustDemo.Transition

namespace Posts

/-- `posts.filter(published.eq(false))` -/
def unpublished (posts : Posts) : List Post := posts.rows.filter fun post => post.published = false

end Posts

def displayed (results : List Post) : List String :=
  ("Displaying " ++ toString results.length ++ " posts") ::
    results.flatMap fun post => [toString post.id, post.title, post.body, "-----------\n"]

/-- `select` -/
def select (posts : Posts) : List String := displayed posts.unpublished

def NewPost.row (new : NewPost) (id : Int) : Post := ⟨id, new.title, new.body, false⟩

variable {κ γ : Type}

def rowsFrom (next : Int) (inserts : List (κ × NewPost)) : List Post :=
  inserts.mapIdx fun i insert => insert.2.row (next + i)

theorem rowsFrom_snoc (next : Int) (inserts : List (κ × NewPost)) (k : κ) (new : NewPost) :
    rowsFrom next (inserts ++ [(k, new)]) = rowsFrom next inserts ++ [new.row (next + inserts.length)] :=
  List.mapIdx_concat

theorem mem_rowsFrom {next : Int} {inserts : List (κ × NewPost)} {post : Post} :
    post ∈ rowsFrom next inserts ↔
      ∃ (i : Nat) (insert : κ × NewPost),
        inserts[i]? = some insert ∧ post = insert.2.row (next + i) := by
  rw [rowsFrom, List.mem_mapIdx]
  constructor
  · rintro ⟨i, within, rfl⟩
    exact ⟨i, inserts[i], List.getElem?_eq_getElem within, rfl⟩
  · rintro ⟨i, insert, found, rfl⟩
    obtain ⟨within, same⟩ := List.getElem?_eq_some_iff.mp found
    exact ⟨i, within, by rw [same]⟩

theorem filter_rowsFrom (next : Int) (inserts : List (κ × NewPost)) :
    (rowsFrom next inserts).filter (fun post => post.published = false) = rowsFrom next inserts := by
  refine List.filter_eq_self.mpr fun post among => ?_
  obtain ⟨i, insert, _, rfl⟩ := mem_rowsFrom.mp among
  rfl

theorem insertInto_rows {posts after : Posts} {new : NewPost} {own : Post}
    (stored : posts.insertInto new = some (own, after)) :
    own = new.row posts.next ∧ after.rows = posts.rows ++ [own] ∧ after.next = posts.next + 1 := by
  unfold Posts.insertInto at stored
  split at stored
  · cases stored
    exact ⟨rfl, rfl, rfl⟩
  · cases stored

namespace Db

variable [DecidableEq κ] [DecidableEq γ]

/-- The ghost record of the inserts that were made, and of the calls that made them. -/
def recordInsert (db : Db κ γ) (event : Event κ γ) (inserts : List (κ × NewPost)) :
    List (κ × NewPost) :=
  match event with
  | .insert k =>
      match db.calls k with
      | .connected _ new =>
          match db.posts.insertInto new with
          | some _ => inserts ++ [(k, new)]
          | none => inserts
      | _ => inserts
  | _ => inserts

def recorded (posts : Posts) : System (Db κ γ × List (κ × NewPost)) (Event κ γ) :=
  (system posts).recording [] recordInsert

inductive Inserts (db : Db κ γ) (inserts : List (κ × NewPost)) :
    Db κ γ → List (κ × NewPost) → Prop where
  | inserted {k : κ} {conn : γ} {new : NewPost} {own : Post} {posts : Posts}
      (connected : db.calls k = .connected conn new)
      (stored : db.posts.insertInto new = some (own, posts)) :
      Inserts db inserts (db.store k conn new own posts) (inserts ++ [(k, new)])
  | returned {k : κ} {conn : γ} {new : NewPost} {own post : Post}
      (inserted : db.calls k = .inserted conn new own) (first : db.posts.firstByIdDesc = some post) :
      Inserts db inserts (db.finish k conn (.returned new own post)) inserts
  | began {k : κ} {conn : γ} (new : NewPost) (absent : db.calls k = .absent) :
      Inserts db inserts (db.connect k conn new) inserts
  | panicked (k : κ) (conn : γ) : Inserts db inserts (db.finish k conn .panicked) inserts

theorem inserts_of_step? {posts : Posts} {state next : Db κ γ × List (κ × NewPost)} {event : Event κ γ}
    (steps : (recorded posts).step? state event = some next) :
    Inserts state.1 state.2 next.1 next.2 := by
  obtain ⟨after, moved, rfl⟩ := Option.map_eq_some_iff.mp steps
  change state.1.step? event = some after at moved
  cases event with
  | begin k conn title body =>
      rw [step?] at moved
      split at moved <;> cases moved
      rename_i absent free
      exact .began _ absent
  | insert k =>
      cases calls : state.1.calls k with
      | connected conn new =>
          rw [step?, calls] at moved
          cases moved
          cases stored : state.1.posts.insertInto new with
          | none =>
              simp only [recordInsert, calls, stored, insertInto]
              exact .panicked _ _
          | some pair =>
              obtain ⟨own, posts⟩ := pair
              simp only [recordInsert, calls, stored, insertInto]
              exact .inserted calls stored
      | _ =>
          rw [step?, calls] at moved
          cases moved
  | select k =>
      rw [step?] at moved
      split at moved <;> cases moved
      rename_i inserted
      unfold selectFirst
      split
      · rename_i first
        exact .returned inserted first
      · exact .panicked _ _
  | fail k =>
      rw [step?] at moved
      split at moved <;> cases moved
      exact .panicked _ _

/-! ## Every run -/

/--
The rows of the table, by the inserts.  The call at a place of the record has its
own row by that place, and returns this row or a later one.
-/
structure Rows (posts : Posts) (db : Db κ γ) (inserts : List (κ × NewPost)) : Prop where
  next : db.posts.next = posts.next + inserts.length
  rows : db.posts.rows = posts.rows ++ rowsFrom posts.next inserts
  once : (inserts.map Prod.fst).Nodup
  waiting : ∀ k, (db.calls k = .absent ∨ ∃ conn new, db.calls k = .connected conn new) →
    k ∉ inserts.map Prod.fst
  own : ∀ k new own, (db.calls k).wrote = some (new, own) →
    ∃ i, inserts[i]? = some (k, new) ∧ own = new.row (posts.next + (i : Nat))
  later : ∀ k new own post, db.calls k = .returned new own post →
    own.id ≤ post.id ∧ post ∈ rowsFrom posts.next inserts

omit [DecidableEq γ] in
theorem Rows.store {posts after : Posts} {db : Db κ γ} {inserts : List (κ × NewPost)}
    (rows : Rows posts db inserts) {k : κ} {conn : γ} {new : NewPost} {own : Post}
    (connected : db.calls k = .connected conn new)
    (stored : db.posts.insertInto new = some (own, after)) :
    Rows posts (db.store k conn new own after) (inserts ++ [(k, new)]) := by
  obtain ⟨next, table, once, waiting, own, later⟩ := rows
  obtain ⟨made, added, following⟩ := insertInto_rows stored
  have fresh := waiting k (Or.inr ⟨conn, new, connected⟩)
  constructor
  · change after.next = _
    rw [following, next, List.length_append, List.length_singleton]
    omega
  · change after.rows = _
    rw [added, table, rowsFrom_snoc, made, next, List.append_assoc]
  · rw [List.map_append, List.nodup_append]
    refine ⟨once, List.nodup_singleton _, fun j before last here same => ?_⟩
    rw [List.mem_singleton.mp here] at same
    subst same
    exact fresh before
  · refine (Function.forall_update_iff db.calls fun j call =>
      (call = .absent ∨ ∃ conn new, call = .connected conn new) →
        j ∉ (inserts ++ [(k, new)]).map Prod.fst).mpr ⟨?_, fun j other still among => ?_⟩
    · rintro (⟨⟨⟩⟩ | ⟨conn, new, ⟨⟩⟩)
    · rw [List.map_append] at among
      rcases List.mem_append.mp among with before | here
      · exact waiting j still before
      · exact other (List.mem_singleton.mp here)
  · refine (Function.forall_update_iff db.calls fun j call => ∀ newJ ownJ,
      call.wrote = some (newJ, ownJ) → ∃ i, (inserts ++ [(k, new)])[i]? = some (j, newJ) ∧
        ownJ = newJ.row (posts.next + (i : Nat))).mpr ⟨?_, fun j _ newJ ownJ wrote => ?_⟩
    · rintro _ _ ⟨⟩
      exact ⟨inserts.length, List.getElem?_concat_length, by rw [made, next]⟩
    · obtain ⟨i, found, same⟩ := own j newJ ownJ wrote
      refine ⟨i, ?_, same⟩
      rw [List.getElem?_append_left (List.getElem?_eq_some_iff.mp found).1]
      exact found
  · refine (Function.forall_update_iff db.calls fun j call => ∀ newJ ownJ postJ,
      call = .returned newJ ownJ postJ → ownJ.id ≤ postJ.id ∧
        postJ ∈ rowsFrom posts.next (inserts ++ [(k, new)])).mpr ⟨?_, fun j _ newJ ownJ postJ returned => ?_⟩
    · rintro _ _ _ ⟨⟩
    · obtain ⟨above, among⟩ := later j newJ ownJ postJ returned
      rw [rowsFrom_snoc]
      exact ⟨above, List.mem_append_left _ among⟩

omit [DecidableEq γ] in
theorem Rows.setCall {posts : Posts} {db next : Db κ γ} {inserts : List (κ × NewPost)}
    (rows : Rows posts db inserts) {k : κ} {call : Call γ} (same : next.posts = db.posts)
    (calls : next.calls = Function.update db.calls k call)
    (wrote : ∀ row, call.wrote = some row → (db.calls k).wrote = some row)
    (begins : ∀ conn new, call = .connected conn new → db.calls k = .absent) (present : call ≠ .absent)
    (later : ∀ new own post, call = .returned new own post →
      own.id ≤ post.id ∧ post ∈ rowsFrom posts.next inserts) : Rows posts next inserts := by
  constructor
  · rw [same]
    exact rows.next
  · rw [same]
    exact rows.rows
  · exact rows.once
  · rw [calls]
    refine (Function.forall_update_iff db.calls fun j call =>
      (call = .absent ∨ ∃ conn new, call = .connected conn new) →
        j ∉ inserts.map Prod.fst).mpr ⟨?_, fun j _ => rows.waiting j⟩
    rintro (gone | ⟨conn, new, connected⟩)
    · exact absurd gone present
    · exact rows.waiting k (Or.inl (begins conn new connected))
  · rw [calls]
    exact (Function.forall_update_iff db.calls fun j call => ∀ newJ ownJ,
      call.wrote = some (newJ, ownJ) → ∃ i, inserts[i]? = some (j, newJ) ∧
        ownJ = newJ.row (posts.next + (i : Nat))).mpr
          ⟨fun new own row => rows.own k new own (wrote _ row), fun j _ => rows.own j⟩
  · rw [calls]
    exact (Function.forall_update_iff db.calls fun j call => ∀ newJ ownJ postJ,
      call = .returned newJ ownJ postJ → ownJ.id ≤ postJ.id ∧
        postJ ∈ rowsFrom posts.next inserts).mpr ⟨later, fun j _ => rows.later j⟩

omit [DecidableEq κ] [DecidableEq γ] in
/-- The first row of the descending order is not older than a row that the calls have made. -/
theorem Rows.select {posts : Posts} {db : Db κ γ} {inserts : List (κ × NewPost)}
    (rows : Rows posts db inserts) {k : κ} {new : NewPost} {own post : Post}
    (wrote : (db.calls k).wrote = some (new, own)) (first : db.posts.firstByIdDesc = some post) :
    own.id ≤ post.id ∧ post ∈ rowsFrom posts.next inserts := by
  obtain ⟨there, largest⟩ := db.posts.head?_orderDesc_iff.mp first
  obtain ⟨i, found, made⟩ := rows.own k new own wrote
  have among : own ∈ rowsFrom posts.next inserts := mem_rowsFrom.mpr ⟨i, (k, new), found, made⟩
  have above : own.id ≤ post.id := by
    refine largest own ?_
    rw [rows.rows]
    exact List.mem_append_right _ among
  refine ⟨above, ?_⟩
  rw [rows.rows] at there
  rcases List.mem_append.mp there with old | among
  · -- an old row has an id below all new ones
    have below := posts.below post old
    rw [made] at above
    change posts.next + (i : Int) ≤ post.id at above
    omega
  · exact among

theorem rows_of_run {posts : Posts} {history : List (Event κ γ)} {state : Db κ γ × List (κ × NewPost)}
    (run : (recorded posts).run? history = some state) : Rows posts state.1 state.2 := by
  refine (recorded posts).invariant (fun state => Rows posts state.1 state.2) ?_ ?_ run
  · exact ⟨(Int.add_zero _).symm, (List.append_nil _).symm, .nil, fun _ _ => List.not_mem_nil,
      nofun, nofun⟩
  · intro state event next rows steps
    obtain ⟨db, inserts⟩ := state
    obtain ⟨after, record⟩ := next
    cases inserts_of_step? steps with
    | inserted connected stored => exact rows.store connected stored
    | @returned k conn new own post inserted first =>
        refine rows.setCall rfl rfl ?_ (by rintro _ _ ⟨⟩) (by rintro ⟨⟩) ?_
        · intro row wrote
          rw [inserted]
          exact wrote
        · rintro _ _ _ ⟨⟩
          exact rows.select (congrArg Call.wrote inserted) first
    | @began k conn new absent =>
        refine rows.setCall rfl rfl (by rintro _ ⟨⟩) (fun _ _ _ => absent) (by rintro ⟨⟩) ?_
        rintro _ _ _ ⟨⟩
    | panicked k conn =>
        refine rows.setCall rfl rfl (by rintro _ ⟨⟩) (by rintro _ _ ⟨⟩) (by rintro ⟨⟩) ?_
        rintro _ _ _ ⟨⟩

/--
All rows.  In every order of the statements of any number of calls: the table has
the rows it had, and behind them one for each insert, with the arguments of its
call and the next id, also of calls that panicked later; no call makes two.
`select` shows the old rows that are not published and all the new ones.  What a
call returns is the row of its own insert, or the one of a later insert.
-/
theorem rows_of_calls {posts : Posts} {history : List (Event κ γ)} {db : Db κ γ}
    {inserts : List (κ × NewPost)} (run : (recorded posts).run? history = some (db, inserts)) :
    db.posts.rows = posts.rows ++ rowsFrom posts.next inserts ∧
      (inserts.map Prod.fst).Nodup ∧
      select db.posts = displayed (posts.unpublished ++ rowsFrom posts.next inserts) ∧
      ∀ k new own post, db.calls k = .returned new own post → ∃ (i j : Nat) (later : κ × NewPost),
        i ≤ j ∧ inserts[i]? = some (k, new) ∧ inserts[j]? = some later ∧
          own = new.row (posts.next + i) ∧ post = later.2.row (posts.next + j) := by
  have rows := rows_of_run run
  refine ⟨rows.rows, rows.once, ?_, fun k new own post returned => ?_⟩
  · rw [select, Posts.unpublished, rows.rows, List.filter_append, filter_rowsFrom]
    rfl
  · obtain ⟨above, among⟩ := rows.later k new own post returned
    obtain ⟨i, found, made⟩ := rows.own k new own (congrArg Call.wrote returned)
    obtain ⟨j, later, foundLater, madeLater⟩ := mem_rowsFrom.mp among
    refine ⟨i, j, later, ?_, found, foundLater, made, madeLater⟩
    rw [made, madeLater] at above
    change posts.next + (i : Int) ≤ posts.next + (j : Int) at above
    omega

/-- Both calls insert before one of them selects. -/
def bothInsert : List (Event Nat Bool) :=
  [.begin 0 false "one" "first", .begin 1 true "two" "second", .insert 0, .insert 1, .select 0]

theorem rows_of_calls_both_insert :
    ∃ db inserts, (recorded created).run? bothInsert = some (db, inserts) ∧
      db.posts.rows = [⟨1, "one", "first", false⟩, ⟨2, "two", "second", false⟩] :=
  ⟨_, _, rfl, (@rows_of_calls Nat Bool _ _ created bothInsert _ _ rfl).1⟩

end Db

end RustDemo.MysqlDemo
