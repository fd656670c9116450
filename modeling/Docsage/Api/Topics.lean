import Docsage.Library.Serial
import Docsage.Api.Creations

/-! # Topics and SME designations

The requests of both backends that create topics, designate SMEs and take the
designations back, one SQL statement after the other. FastAPI looks before it writes
and removes the row that it found; .NET writes and sees from the database what came of it.
-/

namespace Docsage.Topics
open Effects Relational Transition Serial

structure TopicRow where
  id : Uuid
  name : String
  description : String
  createdBy : Uuid
deriving DecidableEq

/-- A row of `sme_designations`; nobody outside the database sees its id. -/
structure SmeDesignationRow where
  id : ℕ
  topicId : Uuid
  userId : Uuid
  designatedBy : Uuid
deriving DecidableEq

/-- The tables that the requests use, in the order of the insertions. The ids of designations are
drawn in order, as no UUID is drawn twice. -/
structure Registry where
  users : List User
  topics : List TopicRow := []
  smeDesignations : List SmeDesignationRow := []
  drawn : ℕ := 0
deriving DecidableEq

def SmeDesignationRow.pair (row : SmeDesignationRow) : Uuid × Uuid := (row.topicId, row.userId)

namespace Registry

def user? (r : Registry) (id : Uuid) : Option User := lookup User.id id r.users

def topic? (r : Registry) (id : Uuid) : Option TopicRow := lookup TopicRow.id id r.topics

def designation? (r : Registry) (topicId userId : Uuid) : Option SmeDesignationRow :=
  lookup SmeDesignationRow.pair (topicId, userId) r.smeDesignations

/-- The INSERT into `topics`; `id` and `name` are unique. -/
def insertTopic (row : TopicRow) (r : Registry) : Except Exc Registry :=
  if r.topics.any (fun topic => topic.id = row.id ∨ topic.name = row.name) then
    .error uniqueViolation
  else if (r.user? row.createdBy).isSome then .ok { r with topics := r.topics ++ [row] }
  else .error Store.foreignKeyViolation

/-- The INSERT into `sme_designations` under `uq_sme_designations_topic_user`. -/
def insertSmeDesignation (topicId userId designatedBy : Uuid) (r : Registry) :
    Except Exc Registry :=
  if (r.designation? topicId userId).isSome then .error uniqueViolation
  else if (r.topic? topicId).isSome ∧ (r.user? userId).isSome ∧ (r.user? designatedBy).isSome then
    .ok { r with
      smeDesignations := r.smeDesignations ++ [⟨r.drawn, topicId, userId, designatedBy⟩]
      drawn := r.drawn + 1 }
  else .error Store.foreignKeyViolation

def deleteDesignation (id : ℕ) (r : Registry) : Registry :=
  { r with smeDesignations := delete SmeDesignationRow.id id r.smeDesignations }

/-- `DELETE FROM sme_designations WHERE topic_id = ... AND user_id = ...`. -/
def deletePair (topicId userId : Uuid) (r : Registry) : Registry :=
  { r with smeDesignations :=
      delete SmeDesignationRow.pair (topicId, userId) r.smeDesignations }

end Registry

structure SmeRef where
  id : Uuid
  displayName : String
  email : String

structure TopicOut where
  id : Uuid
  name : String
  description : String
  smes : List SmeRef

inductive TopicResponse where
  | topic (topic : TopicOut)
  | sme (sme : SmeRef)
  | designated (topicId userId : Uuid)
  | removed

/-- The statements that write. A removal by key relies on the row that was looked up. -/
inductive Statement where
  | insert
  | deleteRow (row : SmeDesignationRow)
  | deletePair

abbrev TopicProgram := Program Registry Exc Statement (Except HttpError TopicResponse)

def ask {β : Type} (check : Registry → Except HttpError β) (rest : β → TopicProgram) :
    TopicProgram :=
  .read fun
  | .error exc => .raised exc
  | .ok r =>
    match check r with
    | .error error => .ret (.error error)
    | .ok found => rest found

def currentAdmin (userId : Uuid) (detail : String) (r : Registry) : Except HttpError User := do
  let user ← orRefuse (r.user? userId) notAuthenticated
  refuse (user.isAdmin = false) 403 detail
  return user

def smeRef (user : User) : SmeRef := ⟨user.id, user.displayName, user.email⟩

structure TopicCreateIn where
  name : String
  description : String := ""
  nameLength : 1 ≤ name.length ∧ name.length ≤ 120
  descriptionLength : description.length ≤ 2000

/-- `_topic_out`; the database sorts names by its collation. -/
def topicOut (byDisplayName : List User → List User) (topic : TopicRow) (r : Registry) : TopicOut :=
  let smes := (r.smeDesignations.filter (·.topicId = topic.id)).filterMap (r.user? ·.userId)
  ⟨topic.id, topic.name, topic.description, (byDisplayName smes).map smeRef⟩

def refreshFailed : Exc := { message := "Could not refresh instance" }

def answerTopic (byDisplayName : List User → List User) (id : Uuid) : TopicProgram :=
  .read fun
  | .error exc => .raised exc
  | .ok r =>
    match r.topic? id with
    | none => .raised refreshFailed
    | some topic => ask (fun r => .ok (topicOut byDisplayName topic r)) fun out =>
        .ret (.ok (.topic out))

def createTopic (byDisplayName : List User → List User) (userId : Uuid) (payload : TopicCreateIn)
    (id : Uuid) : TopicProgram :=
  let name := Text.strip payload.name
  ask (currentAdmin userId "Admin access required") fun admin =>
    if name = "" then .ret (.error ⟨422, "name is required"⟩)
    else ask (fun r => refuse (r.topics.any (·.name = name)) 409 "Topic name already exists")
      fun () =>
      .commit .insert
        (Registry.insertTopic ⟨id, name, Text.strip payload.description, admin.id⟩) fun
      | .error exc => .raised exc
      | .ok () => answerTopic byDisplayName id

def addSme (userId topicId : Uuid) (payload : SmeDesignationIn) : TopicProgram :=
  ask (currentAdmin userId "Admin access required") fun admin =>
    ask (fun r => orRefuse (r.topic? topicId) ⟨404, "Topic not found"⟩) fun _ =>
      ask (fun r => orRefuse (r.user? payload.userId) ⟨404, "User not found"⟩) fun user =>
        ask (fun r => refuse (r.designation? topicId payload.userId).isSome 409
          "User is already an SME for this topic") fun () =>
          .commit .insert (Registry.insertSmeDesignation topicId payload.userId admin.id) fun
          | .error exc => .raised exc
          | .ok () => .ret (.ok (.sme (smeRef user)))

/-- `remove_sme`. If the row is gone by then, the ORM only warns. -/
def removeSme (userId topicId smeId : Uuid) : TopicProgram :=
  ask (currentAdmin userId "Admin access required") fun _ =>
    ask (fun r => orRefuse (r.designation? topicId smeId) ⟨404, "SME designation not found"⟩)
      fun row =>
        .commit (.deleteRow row) (fun r => .ok (r.deleteDesignation row.id)) fun
        | .error exc => .raised exc
        | .ok () => .ret (.ok .removed)

namespace DotNet

/-- `catch (PostgresException ex) when (ex.SqlState == PostgresErrorCodes.UniqueViolation)`. -/
def catchUnique (detail : String) (exc : Exc) : TopicProgram :=
  if exc = uniqueViolation then .ret (.error ⟨409, detail⟩) else .raised exc

def postTopic (userId : Uuid) (name description : Option String) (id : Uuid) : TopicProgram :=
  ask (currentAdmin userId "Admin role required") fun admin =>
    if Text.isNullOrWhiteSpace name then .ret (.error ⟨422, "name is required"⟩)
    else
      let row : TopicRow := ⟨id, Text.trim (name.getD ""), description.getD "", admin.id⟩
      .commit .insert (Registry.insertTopic row) fun
      | .error exc => catchUnique "Topic name already exists" exc
      | .ok () => .ret (.ok (.topic ⟨row.id, row.name, row.description, []⟩))

def postSme (userId topicId smeId : Uuid) : TopicProgram :=
  ask (currentAdmin userId "Admin role required") fun admin =>
    ask (fun r => orRefuse (r.topic? topicId) ⟨404, "Topic not found"⟩) fun _ =>
      ask (fun r => orRefuse (r.user? smeId) ⟨404, "User not found"⟩) fun _ =>
        .commit .insert (Registry.insertSmeDesignation topicId smeId admin.id) fun
        | .error exc => catchUnique "User is already an SME for this topic" exc
        | .ok () => .ret (.ok (.designated topicId smeId))

def noRows : Exc := { message := "0 rows affected" }

/-- `DELETE /api/topics/{id}/smes/{userId}`; the statement that deletes no row counts as one that
fails. -/
def deleteSme (userId topicId smeId : Uuid) : TopicProgram :=
  ask (currentAdmin userId "Admin role required") fun _ =>
    .commit .deletePair
      (fun r => if (r.designation? topicId smeId).isSome then .ok (r.deletePair topicId smeId)
        else .error noRows) fun
    | .error exc =>
      if exc = noRows then .ret (.error ⟨404, "SME designation not found"⟩) else .raised exc
    | .ok () => .ret (.ok .removed)

end DotNet

/-- A request to either backend, with the id that the handler draws for a topic. -/
inductive TopicRequest where
  | createTopic (payload : TopicCreateIn) (id : Uuid)
  | addSme (topicId : Uuid) (payload : SmeDesignationIn)
  | removeSme (topicId smeId : Uuid)
  | postTopic (name description : Option String) (id : Uuid)
  | postSme (topicId smeId : Uuid)
  | deleteSme (topicId smeId : Uuid)

structure Sent where
  userId : Uuid
  request : TopicRequest

def Sent.program (byDisplayName : List User → List User) (sent : Sent) : TopicProgram :=
  match sent.request with
  | .createTopic payload id => createTopic byDisplayName sent.userId payload id
  | .addSme topicId payload => addSme sent.userId topicId payload
  | .removeSme topicId smeId => removeSme sent.userId topicId smeId
  | .postTopic name description id => DotNet.postTopic sent.userId name description id
  | .postSme topicId smeId => DotNet.postSme sent.userId topicId smeId
  | .deleteSme topicId smeId => DotNet.deleteSme sent.userId topicId smeId

/-- The status code. The server error of a violated constraint counts as the 409 that it stands
for. -/
def status : Except Exc (Except HttpError TopicResponse) → ℕ
  | .ok (.ok .removed) => 204
  | .ok (.ok _) => 201
  | .ok (.error error) => error.status
  | .error exc => if exc = uniqueViolation then 409 else 500

structure Valid (r : Registry) : Prop where
  topicIds : (r.topics.map TopicRow.id).Nodup
  names : (r.topics.map TopicRow.name).Nodup
  ids : (r.smeDesignations.map SmeDesignationRow.id).Nodup
  pairs : (r.smeDesignations.map SmeDesignationRow.pair).Nodup
  drawn : ∀ sme ∈ r.smeDesignations, sme.id < r.drawn

/-- Users and topics stay, and a designation that is gone does not come back. -/
structure Later (r r' : Registry) : Prop where
  users : r'.users = r.users
  topics : r.topics <+: r'.topics
  drawn : r.drawn ≤ r'.drawn
  smeDesignations : ∀ sme ∈ r'.smeDesignations, sme.id < r.drawn → sme ∈ r.smeDesignations

theorem Later.refl (r : Registry) : Later r r :=
  ⟨rfl, List.prefix_refl _, le_rfl, fun _ h _ => h⟩

theorem Later.trans {r r' r'' : Registry} (first : Later r r') (second : Later r' r'') :
    Later r r'' where
  users := second.users.trans first.users
  topics := first.topics.trans second.topics
  drawn := first.drawn.trans second.drawn
  smeDesignations sme h hid :=
    first.smeDesignations sme (second.smeDesignations sme h (hid.trans_le first.drawn)) hid

/-- The row that a removal looked up is still there. -/
def Lasts : Statement → Registry → Prop
  | .deleteRow row, r => row ∈ r.smeDesignations
  | .insert, _ | .deletePair, _ => True

def setting : Setting Registry Exc Statement (Except HttpError TopicResponse) ℕ where
  answer := status
  Valid := Valid
  Later := Later
  refl := .refl
  trans := .trans
  Lasts := Lasts

instance (statement : Statement) (r : Registry) : Decidable (setting.Lasts statement r) :=
  match statement with
  | .deleteRow row => inferInstanceAs (Decidable (row ∈ r.smeDesignations))
  | .insert | .deletePair => .isTrue trivial

/-- How many designations a request with this answer adds. -/
def Sent.weight (sent : Sent) (status : ℕ) : ℤ :=
  match sent.request with
  | .addSme .. | .postSme .. => if status = 201 then 1 else 0
  | .removeSme .. | .deleteSme .. => if status = 204 then -1 else 0
  | .createTopic .. | .postTopic .. => 0

variable {r r' : Registry} {p : TopicProgram} {byDisplayName : List User → List User} {w : ℕ → ℤ}

theorem insertTopic_ok {row : TopicRow} (h : Registry.insertTopic row r = .ok r')
    (valid : Valid r) :
    Valid r' ∧ Later r r' ∧ r'.topic? row.id = some row ∧
      r'.smeDesignations = r.smeDesignations := by
  unfold Registry.insertTopic at h
  split_ifs at h with hunique hfk
  obtain rfl := Except.ok.inj h
  have hfresh : ∀ topic ∈ r.topics, topic.id ≠ row.id ∧ topic.name ≠ row.name := by
    simpa using hunique
  refine ⟨⟨?_, ?_, valid.ids, valid.pairs, valid.drawn⟩,
    ⟨rfl, List.prefix_append .., le_rfl, fun _ h _ => h⟩, ?_, rfl⟩
  · simpa [List.nodup_append, valid.topicIds] using fun topic h => (hfresh topic h).1
  · simpa [List.nodup_append, valid.names] using fun topic h => (hfresh topic h).2
  · have hnone : lookup TopicRow.id row.id r.topics = none :=
      lookup_none.mpr fun topic h => (hfresh topic h).1
    rw [lookup, List.find?_eq_none] at hnone
    simp [Registry.topic?, lookup, List.find?_append, List.find?_eq_none.mpr hnone]

theorem insertSmeDesignation_ok {topicId userId designatedBy : Uuid}
    (h : Registry.insertSmeDesignation topicId userId designatedBy r = .ok r') (valid : Valid r) :
    Valid r' ∧ Later r r' ∧
      r'.smeDesignations = r.smeDesignations ++ [⟨r.drawn, topicId, userId, designatedBy⟩] := by
  unfold Registry.insertSmeDesignation at h
  split_ifs at h with hunique hfk
  obtain rfl := Except.ok.inj h
  have hfresh : ∀ sme ∈ r.smeDesignations, sme.pair ≠ (topicId, userId) := by
    simpa [Registry.designation?, lookup] using hunique
  have hids : ∀ sme ∈ r.smeDesignations, sme.id ≠ r.drawn := fun sme h =>
    (valid.drawn sme h).ne
  refine ⟨⟨valid.topicIds, valid.names, ?_, ?_, ?_⟩,
    ⟨rfl, List.prefix_refl _, Nat.le_succ _, ?_⟩, rfl⟩
  · simpa [List.nodup_append, valid.ids] using hids
  · rw [List.map_append, List.nodup_append]
    refine ⟨valid.pairs, List.nodup_singleton _, ?_⟩
    simpa [SmeDesignationRow.pair] using hfresh
  · intro sme h
    rcases List.mem_append.mp h with h | h
    · exact (valid.drawn sme h).trans (Nat.lt_succ_self _)
    · obtain rfl := List.mem_singleton.mp h
      exact Nat.lt_succ_self _
  · intro sme h hid
    rcases List.mem_append.mp h with h | h
    · exact h
    · obtain rfl := List.mem_singleton.mp h
      exact absurd hid (lt_irrefl _)

theorem delete_valid {κ : Type} [DecidableEq κ] (key : SmeDesignationRow → κ) (k : κ)
    (valid : Valid r) :
    Valid { r with smeDesignations := delete key k r.smeDesignations } ∧
      Later r { r with smeDesignations := delete key k r.smeDesignations } :=
  ⟨⟨valid.topicIds, valid.names, valid.ids.sublist (List.filter_sublist.map _),
    valid.pairs.sublist (List.filter_sublist.map _),
    fun sme h => valid.drawn sme (List.mem_of_mem_filter h)⟩,
    rfl, List.prefix_refl _, le_rfl, fun _ h _ => List.mem_of_mem_filter h⟩

theorem length_delete {κ : Type} [DecidableEq κ] {key : SmeDesignationRow → κ}
    {rows : List SmeDesignationRow} {row : SmeDesignationRow} (unique : (rows.map key).Nodup)
    (h : row ∈ rows) : ((delete key (key row) rows).length : ℤ) = rows.length - 1 := by
  induction rows with
  | nil => cases h
  | cons first rows ih =>
    rw [List.map_cons, List.nodup_cons] at unique
    rcases List.mem_cons.mp h with rfl | h
    · have hkept : delete key (key row) rows = rows :=
        List.filter_eq_self.mpr fun other hother => by
          have hne : key other ≠ key row := fun heq =>
            unique.1 (heq ▸ List.mem_map_of_mem hother)
          simpa using hne
      rw [delete, List.filter_cons_of_neg (by simp), ← delete, hkept]
      simp
    · have hne : key first ≠ key row := fun heq => unique.1 (heq ▸ List.mem_map_of_mem h)
      rw [delete, List.filter_cons_of_pos (by simpa using hne), ← delete, List.length_cons,
        List.length_cons]
      push_cast
      rw [ih unique.2 h]
      ring

theorem alone_ask {β : Type} {check : Registry → Except HttpError β} {rest : β → TopicProgram} :
    alone status (ask check rest) r =
      match check r with
      | .error error => (error.status, r)
      | .ok found => alone status (rest found) r := by
  rw [ask, alone, Program.exec]
  dsimp only
  cases check r <;> rfl

theorem alone_commit {label : Statement} {transaction : Registry → Except Exc Registry}
    {next : Except Exc Unit → TopicProgram} :
    alone status (.commit label transaction next) r =
      match transaction r with
      | .error exc => alone status (next (.error exc)) r
      | .ok r' => alone status (next (.ok ())) r' := by
  rw [alone, Program.exec, attempt]
  cases transaction r <;> rfl

@[simp] theorem alone_ret {x : Except HttpError TopicResponse} :
    alone status (.ret x : TopicProgram) r = (status (.ok x), r) := rfl

@[simp] theorem alone_raised {exc : Exc} :
    alone status (.raised exc : TopicProgram) r = (status (.error exc), r) := rfl

/-- A SELECT that finds something lets the request go on if, alone, it would do the same later. -/
theorem steady_ask {β : Type} {check : Registry → Except HttpError β} {rest : β → TopicProgram}
    (steady : ∀ t found, Later r t → Valid t → check t = .ok found → result (rest found) = none →
      Steady setting w (rest found) t)
    (same : ∀ t found, Later r t → Valid t → check t = .ok found → result (rest found) = none →
      ∀ u, Later t u → Valid u → Undisturbed setting u (rest found) →
        alone status (rest found) u = alone status (ask check rest) u) :
    Steady setting w (ask check rest) r := by
  refine .read (fun t later valid unended => ?_) fun t later valid unended => ?_
  · cases hcheck : check t with
    | error error => simp [hcheck, result] at unended
    | ok found =>
      simp only [hcheck] at unended ⊢
      exact steady t found later valid hcheck unended
  · cases hcheck : check t with
    | error error => simp [hcheck, result] at unended
    | ok found =>
      simp only [hcheck] at unended ⊢
      exact same t found later valid hcheck unended

theorem steady_ask_lasting {β : Type} {check : Registry → Except HttpError β}
    {rest : β → TopicProgram}
    (lasting : ∀ t u found, Later t u → check t = .ok found → check u = .ok found)
    (steady : ∀ t found, Later r t → Valid t → check t = .ok found → result (rest found) = none →
      Steady setting w (rest found) t) :
    Steady setting w (ask check rest) r := by
  refine steady_ask steady fun t found _ _ hcheck _ u later _ _ => ?_
  rw [alone_ask, lasting t u found later hcheck]

theorem currentAdmin_lasting {userId : Uuid} {detail : String} {admin : User}
    (later : Later r r') (h : currentAdmin userId detail r = .ok admin) :
    currentAdmin userId detail r' = .ok admin := by
  rw [← h, currentAdmin, currentAdmin, Registry.user?, Registry.user?, later.users]

theorem Later.topic {topicId : Uuid} {topic : TopicRow} (later : Later r r')
    (h : r.topic? topicId = some topic) : r'.topic? topicId = some topic := by
  obtain ⟨more, hmore⟩ := later.topics
  rw [Registry.topic?, ← hmore, lookup, List.find?_append]
  have hfound : r.topics.find? (fun topic => topic.id = topicId) = some topic := h
  rw [hfound]
  rfl

theorem topic?_lasting {topicId : Uuid} {error : HttpError} {topic : TopicRow}
    (later : Later r r') (h : orRefuse (r.topic? topicId) error = .ok topic) :
    orRefuse (r'.topic? topicId) error = .ok topic := by
  cases htopic : r.topic? topicId with
  | none => simp [htopic, orRefuse] at h
  | some found => rwa [later.topic htopic, ← htopic]

theorem Later.user? {userId : Uuid} (later : Later r r') : r'.user? userId = r.user? userId := by
  rw [Registry.user?, later.users]
  rfl

theorem alone_answerTopic {id : Uuid} : (alone status (answerTopic byDisplayName id) r).2 = r := by
  rw [alone, answerTopic, Program.exec]
  dsimp only
  cases r.topic? id <;> rfl

theorem settled_of_result (h : (result p).isSome) : ∃ a, Settled setting a p r := by
  obtain ⟨x, hx⟩ := Option.isSome_iff_exists.mp h
  exact ⟨status x, .ended hx rfl⟩

theorem steady_commit {label : Statement} {transaction : Registry → Except Exc Registry}
    {next : Except Exc Unit → TopicProgram} (lasts : ∀ t, Lasts label t)
    (keeps : ∀ t t', Valid t → transaction t = .ok t' →
      Valid t' ∧ Later t t' ∧ ∃ a, Settled setting a (next (.ok ())) t')
    (failed : ∀ exc, (result (next (.error exc))).isSome) :
    Steady setting w (.commit label transaction next) r := by
  refine .commit (fun t _ valid => ?_) fun t _ valid => ?_
  · cases h : transaction t with
    | ok t' =>
      obtain ⟨hvalid, hlater, -⟩ := keeps t t' valid h
      rw [attempt_none h]
      exact ⟨hvalid, hlater⟩
    | error exc => simpa [attempt, h] using And.intro valid (setting.refl t)
  · cases h : transaction t with
    | ok t' =>
      obtain ⟨-, -, a, settled⟩ := keeps t t' valid h
      rw [attempt_none h]
      exact ⟨a, settled, fun hnot => absurd (lasts t) hnot⟩
    | error exc =>
      obtain ⟨a, settled⟩ := settled_of_result (r := t) (failed exc)
      simp only [attempt, h]
      exact ⟨a, settled, fun hnot => absurd (lasts t) hnot⟩

theorem steady_createTopic (userId : Uuid) (payload : TopicCreateIn) (id : Uuid) :
    Steady setting w (createTopic byDisplayName userId payload id) r := by
  refine steady_ask_lasting (fun _ _ _ later => currentAdmin_lasting later)
    fun t admin _ _ _ unended => ?_
  by_cases hname : Text.strip payload.name = ""
  · rw [if_pos hname] at unended
    cases unended
  rw [if_neg hname]
  refine steady_ask (fun t _ _ _ _ _ => ?_) fun t _ _ _ hcheck _ u _ _ _ => ?_
  · refine steady_commit (fun _ => trivial) (fun t t' valid h => ?_) fun exc => rfl
    obtain ⟨hvalid, hlater, hrow, -⟩ := insertTopic_ok h valid
    refine ⟨hvalid, hlater, 201, .read fun u later _ => ?_⟩
    simp only [later.topic hrow]
    exact .read fun _ _ _ => .ended rfl rfl
  · -- a name that was taken meanwhile violates the constraint
    rw [alone_ask]
    by_cases htaken : u.topics.any (·.name = Text.strip payload.name) = true
    · have hviolates (row : TopicRow) (h : row.name = Text.strip payload.name) :
          Registry.insertTopic row u = .error uniqueViolation := by
        refine if_pos ?_
        simp only [List.any_eq_true, decide_eq_true_eq] at htaken ⊢
        obtain ⟨topic, htopic, hsame⟩ := htaken
        exact ⟨topic, htopic, .inr (hsame.trans h.symm)⟩
      rw [alone_commit, hviolates _ rfl, refuse, if_pos htaken]
      rfl
    · rw [refuse, if_neg htaken]

theorem steady_insertSme {topicId userId designatedBy : Uuid}
    {next : Except Exc Unit → TopicProgram} (ends : ∀ done, (result (next done)).isSome) :
    Steady setting w
      (.commit .insert (Registry.insertSmeDesignation topicId userId designatedBy) next) r := by
  refine steady_commit (fun _ => trivial) (fun t t' valid h => ?_) fun exc => ends _
  obtain ⟨hvalid, hlater, -⟩ := insertSmeDesignation_ok h valid
  exact ⟨hvalid, hlater, settled_of_result (ends _)⟩

theorem steady_addSme (userId topicId : Uuid) (payload : SmeDesignationIn) :
    Steady setting w (addSme userId topicId payload) r := by
  refine steady_ask_lasting (fun _ _ _ later => currentAdmin_lasting later)
    fun t admin _ _ _ _ => ?_
  refine steady_ask_lasting (fun _ _ _ later => topic?_lasting later) fun t _ _ _ _ _ => ?_
  refine steady_ask_lasting (fun t u user later h => ?_) fun t _ _ _ _ _ => ?_
  · rwa [later.user?]
  refine steady_ask (fun t _ _ _ _ _ => ?_) fun t _ _ _ _ _ u _ _ _ => ?_
  · exact steady_insertSme fun done => by cases done <;> rfl
  · -- a pair that was designated meanwhile violates the constraint
    rw [alone_ask]
    by_cases htaken : (u.designation? topicId payload.userId).isSome
    · rw [alone_commit, Registry.insertSmeDesignation, if_pos htaken, refuse, if_pos htaken]
      rfl
    · rw [refuse, if_neg htaken]

theorem designation_found {topicId smeId : Uuid} {error : HttpError} {row : SmeDesignationRow}
    (h : orRefuse (r.designation? topicId smeId) error = .ok row) :
    row ∈ r.smeDesignations ∧ row.pair = (topicId, smeId) := by
  cases hfound : r.designation? topicId smeId with
  | none => simp [hfound, orRefuse] at h
  | some found =>
    rw [hfound] at h
    obtain rfl := Except.ok.inj h
    exact lookup_some hfound

theorem deleteDesignation_gone {row : SmeDesignationRow} (valid : Valid r)
    (there : row ∈ r.smeDesignations) (later : Later r r') (gone : row ∉ r'.smeDesignations) :
    r'.deleteDesignation row.id = r' := by
  have hkept : delete SmeDesignationRow.id row.id r'.smeDesignations = r'.smeDesignations := by
    refine List.filter_eq_self.mpr fun sme hsme => ?_
    have hne : sme.id ≠ row.id := by
      intro hid
      have hsame := later.smeDesignations sme hsme (hid ▸ valid.drawn row there)
      obtain rfl : sme = row := List.inj_on_of_nodup_map valid.ids hsame there hid
      exact gone hsme
    simpa using hne
  rw [Registry.deleteDesignation, hkept]

theorem steady_removeSme (userId topicId smeId : Uuid) (lost : w 204 < 0) :
    Steady setting w (removeSme userId topicId smeId) r := by
  refine steady_ask_lasting (fun _ _ _ later => currentAdmin_lasting later)
    fun t admin _ _ _ _ => ?_
  refine steady_ask (fun t row _ valid hrow _ => ?_) fun t row _ _ hrow _ u _ valid there => ?_
  · refine .commit (fun u _ valid => ?_) fun u later _ => ⟨204, .ended rfl rfl, fun gone => ?_⟩
    · exact delete_valid SmeDesignationRow.id row.id valid
    · exact ⟨deleteDesignation_gone valid (designation_found hrow).1 later gone, lost⟩
  · -- the row is still there, so looking it up again would find it
    have there : row ∈ u.smeDesignations := there
    have hfound : u.designation? topicId smeId = some row := by
      rw [Registry.designation?, ← (designation_found hrow).2]
      exact lookup_of_mem valid.pairs there
    rw [alone_ask, hfound]
    rfl

namespace DotNet

theorem ends_catchUnique (detail : String) (exc : Exc) :
    (result (catchUnique detail exc)).isSome := by
  unfold catchUnique
  split_ifs <;> rfl

theorem steady_postTopic (userId : Uuid) (name description : Option String) (id : Uuid) :
    Steady setting w (postTopic userId name description id) r := by
  refine steady_ask_lasting (fun _ _ _ later => currentAdmin_lasting later)
    fun t admin _ _ _ unended => ?_
  by_cases hname : Text.isNullOrWhiteSpace name = true
  · rw [if_pos hname] at unended
    cases unended
  rw [if_neg hname]
  refine steady_commit (fun _ => trivial) (fun t t' valid h => ?_) fun exc => ends_catchUnique _ exc
  obtain ⟨hvalid, hlater, -, -⟩ := insertTopic_ok h valid
  exact ⟨hvalid, hlater, 201, .ended rfl rfl⟩

theorem steady_postSme (userId topicId smeId : Uuid) :
    Steady setting w (postSme userId topicId smeId) r := by
  refine steady_ask_lasting (fun _ _ _ later => currentAdmin_lasting later)
    fun t admin _ _ _ _ => ?_
  refine steady_ask_lasting (fun _ _ _ later => topic?_lasting later) fun t _ _ _ _ _ => ?_
  refine steady_ask_lasting (fun t u user later h => ?_) fun t _ _ _ _ _ => ?_
  · rwa [later.user?]
  refine steady_insertSme fun done => ?_
  cases done with
  | error exc => exact ends_catchUnique _ exc
  | ok => rfl

theorem steady_deleteSme (userId topicId smeId : Uuid) :
    Steady setting w (deleteSme userId topicId smeId) r := by
  refine steady_ask_lasting (fun _ _ _ later => currentAdmin_lasting later)
    fun t admin _ _ _ _ => ?_
  refine steady_commit (fun _ => trivial) (fun t t' valid h => ?_) fun exc => ?_
  · split_ifs at h
    obtain rfl := Except.ok.inj h
    obtain ⟨hvalid, hlater⟩ := delete_valid SmeDesignationRow.pair (topicId, smeId) valid
    exact ⟨hvalid, hlater, 204, .ended rfl rfl⟩
  · dsimp only
    split_ifs <;> rfl

end DotNet

theorem Sent.steady (sent : Sent) :
    Steady setting sent.weight (sent.program byDisplayName) r := by
  obtain ⟨userId, request⟩ := sent
  cases request with
  | createTopic payload id => exact steady_createTopic userId payload id
  | addSme topicId payload => exact steady_addSme userId topicId payload
  | removeSme topicId smeId =>
    exact steady_removeSme userId topicId smeId (by simp [Sent.weight])
  | postTopic name description id => exact DotNet.steady_postTopic userId name description id
  | postSme topicId smeId => exact DotNet.steady_postSme userId topicId smeId
  | deleteSme topicId smeId => exact DotNet.steady_deleteSme userId topicId smeId

/-! Alone, the two that create leave what they leave where their SELECTs are one. -/

def Registry.store (r : Registry) : Store where
  now := 0
  users := r.users
  topics := r.topics.map fun topic => ⟨topic.id, topic.name⟩
  smeDesignations := r.smeDesignations.map fun sme => ⟨sme.topicId, sme.userId⟩

theorem Registry.store_topic? (topicId : Uuid) :
    r.store.topic? topicId = (r.topic? topicId).map fun topic => ⟨topic.id, topic.name⟩ := by
  rw [Store.topic?, Registry.store, lookup, List.find?_map]
  rfl

theorem Registry.store_smeDesignations {topicId smeId : Uuid} :
    ⟨topicId, smeId⟩ ∈ r.store.smeDesignations ↔ (r.designation? topicId smeId).isSome := by
  simp [Registry.store, Registry.designation?, lookup, SmeDesignationRow.pair]

theorem addSme_store {userId topicId : Uuid} {payload : SmeDesignationIn} {admin : User}
    (sender : currentAdmin userId "Admin access required" r = .ok admin)
    (known : r.user? admin.id = some admin) :
    (alone status (addSme userId topicId payload) r).2.store =
      ((Creation.addSme topicId payload).exec (fun _ => none) r.store).2 := by
  have huser : r.store.user? payload.userId = r.user? payload.userId := rfl
  simp only [addSme, alone_ask, sender, Creation.addSme, checkThenInsert, Program.exec,
    Registry.store_topic?, huser, Registry.store_smeDesignations]
  cases htopic : r.topic? topicId with
  | none => rfl
  | some topic =>
    cases hsme : r.user? payload.userId with
    | none => rfl
    | some user =>
      cases hpair : r.designation? topicId payload.userId with
      | some sme => rfl
      | none =>
        have hnot : ¬ ⟨topicId, payload.userId⟩ ∈ r.store.smeDesignations := by
          rw [Registry.store_smeDesignations, hpair]
          exact Bool.false_ne_true
        simp [orRefuse, refuse, bind, Except.bind, pure, Except.pure, alone_commit,
          Registry.insertSmeDesignation, hpair, htopic, hsme, known, attempt,
          Store.insertSmeDesignation, hnot, Registry.store_topic?, huser, Program.exec]
        simp [Registry.store]

theorem createTopic_store {userId id : Uuid} {payload : TopicCreateIn} {admin : User}
    (sender : currentAdmin userId "Admin access required" r = .ok admin)
    (known : r.user? admin.id = some admin) (fresh : ∀ topic ∈ r.topics, topic.id ≠ id)
    (hname : storable (Text.strip payload.name) = true)
    (hdescription : storable (Text.strip payload.description) = true) :
    (alone status (createTopic byDisplayName userId payload id) r).2.store =
      ((Creation.createTopic ⟨payload.name, payload.description⟩ id).exec (fun _ => none)
        r.store).2 := by
  have hnames (name : String) :
      r.store.topics.any (·.name = name) = r.topics.any (·.name = name) := by
    rw [Registry.store, List.any_map]
    rfl
  have hsent {α : Type} (statement : Except Exc α) :
      withTexts [Text.strip payload.name] statement = statement := by
    simp [withTexts, hname]
  simp only [createTopic, alone_ask, sender, Creation.createTopic, checkThenInsert, Program.exec]
  by_cases hempty : Text.strip payload.name = ""
  · rw [if_pos hempty, if_pos hempty]
    rfl
  rw [if_neg hempty, if_neg hempty, alone_ask, hsent, hnames]
  by_cases htaken : r.topics.any (·.name = Text.strip payload.name) = true
  · rw [refuse, if_pos htaken]
    rfl
  · have hunique : ¬ r.topics.any (fun topic => topic.id = id ∨
        topic.name = Text.strip payload.name) = true := by
      simp only [List.any_eq_true, not_exists, not_and, decide_eq_true_eq] at htaken ⊢
      exact fun topic h => not_or.mpr ⟨fresh topic h, htaken topic h⟩
    have hinsert (description : String) :
        Registry.insertTopic ⟨id, Text.strip payload.name, description, admin.id⟩ r = .ok { r with
          topics := r.topics ++ [⟨id, Text.strip payload.name, description, admin.id⟩] } := by
      rw [Registry.insertTopic, if_neg hunique, known]
      rfl
    have hinsert' : Store.insertTopic ⟨id, Text.strip payload.name⟩ (Text.strip payload.description)
        r.store = .ok { r.store with
          topics := r.store.topics ++ [⟨id, Text.strip payload.name⟩] } := by
      simp [Store.insertTopic, withTexts, hname, hdescription, hnames, htaken]
    rw [refuse, if_neg htaken]
    simp only [alone_commit, hinsert, alone_answerTopic, Program.exec, attempt_none hinsert']
    simp [Registry.store]

/-- Alone, the program adds as many designations as its answer says. -/
def Balanced (w : ℕ → ℤ) (p : TopicProgram) (r : Registry) : Prop :=
  ((alone status p r).2.smeDesignations.length : ℤ) =
    r.smeDesignations.length + w (alone status p r).1

theorem balanced_of_result (ended : (result p).isSome) (h : w (alone status p r).1 = 0) :
    Balanced w p r := by
  obtain ⟨x, hx⟩ := Option.isSome_iff_exists.mp ended
  rw [Balanced, h, alone_of_result hx, add_zero]

def Silent (w : ℕ → ℤ) : Prop := ∀ status, 400 ≤ status → w status = 0

theorem balanced_ask {β : Type} {check : Registry → Except HttpError β} {rest : β → TopicProgram}
    (silent : Silent w) (refused : ∀ error, check r = .error error → 400 ≤ error.status)
    (found : ∀ x, check r = .ok x → Balanced w (rest x) r) : Balanced w (ask check rest) r := by
  rw [Balanced, alone_ask]
  cases hcheck : check r with
  | error error => simp [silent _ (refused error hcheck)]
  | ok x => exact found x hcheck

theorem currentAdmin_error {userId : Uuid} {detail : String} {error : HttpError}
    (h : currentAdmin userId detail r = .error error) : 400 ≤ error.status := by
  unfold currentAdmin at h
  cases huser : r.user? userId with
  | none =>
    obtain rfl : notAuthenticated = error := by simpa [huser, orRefuse, bind, Except.bind] using h
    decide
  | some user =>
    rw [orRefuse_bind_some huser] at h
    rcases refuse_bind_error h with hstatus | h
    · omega
    · cases h

theorem orRefuse_error {β : Type} {value : Option β} {error error' : HttpError}
    (h : orRefuse value error = .error error') : error' = error := by
  cases value with
  | none => exact (Except.error.inj h).symm
  | some x => cases h

theorem refuse_error {condition : Prop} [Decidable condition] {status : ℕ} {detail : String}
    {error : HttpError} (h : refuse condition status detail = .error error) :
    error.status = status := by
  unfold refuse at h
  split_ifs at h
  rw [← Except.error.inj h]

/-- An INSERT of a topic leaves the designations alone, and so does every answer to it. -/
theorem balanced_insertTopic {row : TopicRow} {next : Except Exc Unit → TopicProgram}
    (still : ∀ done r, (alone status (next done) r).2 = r) (valid : Valid r) (free : ∀ s, w s = 0) :
    Balanced w (.commit .insert (Registry.insertTopic row) next) r := by
  rw [Balanced, alone_commit, free]
  cases h : Registry.insertTopic row r with
  | error exc => simp only [still, add_zero]
  | ok r' =>
    obtain ⟨-, -, -, hsame⟩ := insertTopic_ok h valid
    simp only [still, hsame, add_zero]

theorem balanced_insertSme {topicId userId designatedBy : Uuid}
    {next : Except Exc Unit → TopicProgram} (ends : ∀ done, (result (next done)).isSome)
    (created : ∀ r, (alone status (next (.ok ())) r).1 = 201) (one : w 201 = 1)
    (failed : ∀ exc r, 400 ≤ (alone status (next (.error exc)) r).1) (silent : Silent w)
    (valid : Valid r) :
    Balanced w
      (.commit .insert (Registry.insertSmeDesignation topicId userId designatedBy) next) r := by
  have still (done : Except Exc Unit) (r : Registry) : (alone status (next done) r).2 = r := by
    obtain ⟨x, hx⟩ := Option.isSome_iff_exists.mp (ends done)
    rw [alone_of_result hx]
  rw [Balanced, alone_commit]
  cases h : Registry.insertSmeDesignation topicId userId designatedBy r with
  | error exc => simp only [still, silent _ (failed exc r), add_zero]
  | ok r' =>
    obtain ⟨-, -, hmore⟩ := insertSmeDesignation_ok h valid
    simp only [still, hmore, created, one, List.length_append, List.length_singleton]
    push_cast
    rfl

theorem status_error (exc : Exc) : 400 ≤ status (.error exc) := by
  rw [status]
  split_ifs <;> decide

theorem DotNet.status_catchUnique {detail : String} (exc : Exc) (r : Registry) :
    400 ≤ (alone status (DotNet.catchUnique detail exc) r).1 := by
  unfold DotNet.catchUnique
  split_ifs
  · exact Nat.le_of_ble_eq_true rfl
  · exact status_error exc

theorem balanced_addSme (userId topicId : Uuid) (payload : SmeDesignationIn) (silent : Silent w)
    (one : w 201 = 1) (valid : Valid r) : Balanced w (addSme userId topicId payload) r := by
  refine balanced_ask silent (fun _ => currentAdmin_error) fun admin _ => ?_
  refine balanced_ask silent (fun _ h => (orRefuse_error h) ▸ (by decide)) fun topic _ => ?_
  refine balanced_ask silent (fun _ h => (orRefuse_error h) ▸ (by decide)) fun user _ => ?_
  refine balanced_ask silent (fun _ h => (refuse_error h).symm ▸ (by decide)) fun _ _ => ?_
  refine balanced_insertSme (fun done => ?_) (fun _ => rfl) one (fun exc _ => status_error exc)
    silent valid
  cases done <;> rfl

theorem DotNet.balanced_postSme (userId topicId smeId : Uuid) (silent : Silent w) (one : w 201 = 1)
    (valid : Valid r) : Balanced w (DotNet.postSme userId topicId smeId) r := by
  refine balanced_ask silent (fun _ => currentAdmin_error) fun admin _ => ?_
  refine balanced_ask silent (fun _ h => (orRefuse_error h) ▸ (by decide)) fun topic _ => ?_
  refine balanced_ask silent (fun _ h => (orRefuse_error h) ▸ (by decide)) fun user _ => ?_
  refine balanced_insertSme (fun done => ?_) (fun _ => rfl) one
    (fun exc r => DotNet.status_catchUnique exc r) silent valid
  cases done with
  | error exc => exact DotNet.ends_catchUnique _ exc
  | ok => rfl

theorem balanced_removeSme (userId topicId smeId : Uuid) (silent : Silent w) (one : w 204 = -1)
    (valid : Valid r) : Balanced w (removeSme userId topicId smeId) r := by
  refine balanced_ask silent (fun _ => currentAdmin_error) fun admin _ => ?_
  refine balanced_ask silent (fun _ h => (orRefuse_error h) ▸ (by decide)) fun row hrow => ?_
  obtain ⟨hmem, -⟩ := designation_found hrow
  rw [Balanced, alone_commit]
  simp only [alone_ret, status, one, Registry.deleteDesignation, length_delete valid.ids hmem]
  rfl

theorem DotNet.balanced_deleteSme (userId topicId smeId : Uuid) (silent : Silent w)
    (one : w 204 = -1) (valid : Valid r) :
    Balanced w (DotNet.deleteSme userId topicId smeId) r := by
  refine balanced_ask silent (fun _ => currentAdmin_error) fun admin _ => ?_
  rw [Balanced, alone_commit]
  cases hfound : r.designation? topicId smeId with
  | none => simp [status, silent 404 (by decide)]
  | some row =>
    obtain ⟨hmem, hpair⟩ := lookup_some hfound
    have hlength := length_delete valid.pairs hmem
    rw [hpair] at hlength
    simp only [Option.isSome_some, if_true, alone_ret, status, one, Registry.deletePair, hlength]
    rfl

theorem balanced_createTopic (userId : Uuid) (payload : TopicCreateIn) (id : Uuid)
    (free : ∀ s, w s = 0) (valid : Valid r) :
    Balanced w (createTopic byDisplayName userId payload id) r := by
  have silent : Silent w := fun s _ => free s
  refine balanced_ask silent (fun _ => currentAdmin_error) fun admin _ => ?_
  by_cases hname : Text.strip payload.name = ""
  · rw [if_pos hname]
    exact balanced_of_result rfl (free _)
  rw [if_neg hname]
  refine balanced_ask silent (fun _ h => (refuse_error h).symm ▸ (by decide)) fun _ _ => ?_
  refine balanced_insertTopic (fun done r => ?_) valid free
  cases done with
  | error exc => rfl
  | ok => exact alone_answerTopic

theorem DotNet.balanced_postTopic (userId : Uuid) (name description : Option String) (id : Uuid)
    (free : ∀ s, w s = 0) (valid : Valid r) :
    Balanced w (DotNet.postTopic userId name description id) r := by
  have silent : Silent w := fun s _ => free s
  refine balanced_ask silent (fun _ => currentAdmin_error) fun admin _ => ?_
  by_cases hname : Text.isNullOrWhiteSpace name = true
  · rw [if_pos hname]
    exact balanced_of_result rfl (free _)
  rw [if_neg hname]
  refine balanced_insertTopic (fun done r => ?_) valid free
  cases done with
  | error exc =>
    obtain ⟨x, hx⟩ := Option.isSome_iff_exists.mp (DotNet.ends_catchUnique
      "Topic name already exists" exc)
    exact congrArg Prod.snd (alone_of_result hx)
  | ok => rfl

theorem Sent.balanced (sent : Sent) (valid : Valid r) :
    Balanced sent.weight (sent.program byDisplayName) r := by
  obtain ⟨userId, request⟩ := sent
  have hsilent (status : ℕ) (h : 400 ≤ status) : status ≠ 201 ∧ status ≠ 204 := by omega
  cases request with
  | createTopic payload id => exact balanced_createTopic userId payload id (fun _ => rfl) valid
  | addSme topicId payload =>
    exact balanced_addSme userId topicId payload (fun _ h => if_neg (hsilent _ h).1) rfl valid
  | removeSme topicId smeId =>
    exact balanced_removeSme userId topicId smeId (fun _ h => if_neg (hsilent _ h).2) rfl valid
  | postTopic name description id =>
    exact DotNet.balanced_postTopic userId name description id (fun _ => rfl) valid
  | postSme topicId smeId =>
    exact DotNet.balanced_postSme userId topicId smeId (fun _ h => if_neg (hsilent _ h).1) rfl valid
  | deleteSme topicId smeId =>
    exact DotNet.balanced_deleteSme userId topicId smeId (fun _ h => if_neg (hsilent _ h).2) rfl
      valid

/-- However the statements of the requests interleave: once all are answered, the answers and the
tables are those of the requests one after the other, in some order, exactly if no FastAPI removal
found its row gone at its DELETE. -/
theorem topics_serializable_iff (byDisplayName : List User → List User) {requests : List Sent}
    {registry : Registry} (valid : Valid registry) {moves : List ℕ}
    {t : Serial.State Sent Registry Exc Statement (Except HttpError TopicResponse)}
    (done : execute step (start (Sent.program byDisplayName) requests registry) moves = some t)
    (answered : ∀ process ∈ t.processes, (result process.2).isSome) :
    Serializable status (Sent.program byDisplayName) registry t ↔
      Obeys step (InPeace setting) (start (Sent.program byDisplayName) requests registry) moves :=
  serializable_iff (P := setting) (fun r => r.smeDesignations.length)
    (fun sent _ _ => sent.steady) (fun sent _ valid => sent.balanced valid) valid done answered

namespace Desk

/-! Two admins take the same designation back, one with each backend. -/

def ada : User := ⟨1, "ada@agency.test", "", "Ada", .admin⟩
def sam : User := ⟨2, "sam@agency.test", "", "Sam", .user⟩

def registry : Registry where
  users := [ada, sam]
  topics := [⟨10, "Finance", "", ada.id⟩]
  smeDesignations := [⟨0, 10, sam.id, ada.id⟩]
  drawn := 1

def requests : List Sent := [⟨ada.id, .removeSme 10 sam.id⟩, ⟨ada.id, .deleteSme 10 sam.id⟩]

theorem valid : Valid registry := ⟨by decide, by decide, by decide, by decide, by decide⟩

end Desk

open Desk

/-- Where the .NET removal comes between the SELECT and the DELETE of the other, both succeed, as
in no serial order. -/
theorem topics_serializable_iff_desk :
    (∃ t, execute step (start (Sent.program id) requests registry) [0, 0, 0, 1, 1] = some t ∧
      Serializable status (Sent.program id) registry t) ∧
    ∃ t, execute step (start (Sent.program id) requests registry) [0, 0, 1, 1, 0] = some t ∧
      t.processes.map (fun process => (result process.2).map status) = [some 204, some 204] ∧
      ¬ Serializable status (Sent.program id) registry t := by
  have hrun (moves : List ℕ) (answers : List (Option ℕ))
      (h : (execute step (start (Sent.program id) requests registry) moves).map (fun t =>
        (t.processes.map fun process => (result process.2).map status,
          t.processes.all fun process => (result process.2).isSome)) = some (answers, true)) :
      ∃ t, execute step (start (Sent.program id) requests registry) moves = some t ∧
        t.processes.map (fun process => (result process.2).map status) = answers ∧
        (Serializable status (Sent.program id) registry t ↔
          Obeys step (InPeace setting) (start (Sent.program id) requests registry) moves) := by
    obtain ⟨t, ht, h⟩ := Option.map_eq_some_iff.mp h
    obtain ⟨hanswers, hall⟩ := Prod.mk.inj h
    exact ⟨t, ht, hanswers, topics_serializable_iff id valid ht (List.all_eq_true.mp hall)⟩
  obtain ⟨t, ht, -, hserial⟩ := hrun [0, 0, 0, 1, 1] [some 204, some 404] rfl
  obtain ⟨t', ht', hanswers, hnot⟩ := hrun [0, 0, 1, 1, 0] [some 204, some 204] rfl
  exact ⟨⟨t, ht, hserial.mpr (by decide)⟩, t', ht', hanswers, hnot.not.mpr (by decide)⟩

end Docsage.Topics
