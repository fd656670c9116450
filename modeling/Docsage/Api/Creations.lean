import Docsage.Auth.Sessions
import Docsage.Library.Race
import Docsage.Text.Whitespace

/-! # Creating what is unique

`register`, `create_topic` and `add_sme` of the FastAPI backend look for the row
that they are about to insert. The table has a unique constraint besides, and the
handlers do not catch its violation. Nor do they catch what the driver raises on a
text with U+0000 in it.
-/

namespace Docsage
open Effects Relational Transition Race

def uniqueViolation : Exc := { message := "duplicate key value violates unique constraint" }

/-- What psycopg raises before it sends such a text. -/
def nulInText : Exc := { message := "PostgreSQL text fields cannot contain NUL (0x00) bytes" }

def storable (text : String) : Bool := !text.toList.contains (Char.ofNat 0)

def withTexts {α : Type} (texts : List String) (statement : Except Exc α) : Except Exc α :=
  if texts.all storable then statement else .error nulInText

structure TopicCreateIn where
  name : String
  description : String := ""

structure SmeDesignationIn where
  userId : Uuid

inductive Created where
  | user (user : User)
  | topic (topic : Topic)
  | sme (user : User)

inductive CreationCommit where
  | insert
  | session

abbrev CreationProgram := Program Store Exc CreationCommit (Except HttpError Created)

/-- The checks, the INSERT, and what the handler does after it. -/
def checkThenInsert {α : Type} (checks : Store → Except Exc (Except HttpError α))
    (insert : Store → Except Exc Store) (rest : α → CreationProgram) : CreationProgram :=
  .read fun
  | .error exc => .raised exc
  | .ok s =>
    match checks s with
    | .error exc => .raised exc
    | .ok (.error error) => .ret (.error error)
    | .ok (.ok found) =>
      .commit .insert insert fun
      | .error exc => .raised exc
      | .ok () => rest found

namespace Store

/-- The INSERT into `users`; `email` is unique. -/
def insertNewUser (row : User) (s : Store) : Except Exc Store :=
  withTexts [row.email, row.passwordHash, row.displayName]
    (if s.users.any (·.email = row.email) then .error uniqueViolation else .ok (s.insertUser row))

/-- The INSERT into `topics`; `name` is unique. The description is only looked at here. -/
def insertTopic (row : Topic) (description : String) (s : Store) : Except Exc Store :=
  withTexts [row.name, description]
    (if s.topics.any (·.name = row.name) then .error uniqueViolation
      else .ok { s with topics := s.topics ++ [row] })

/-- The INSERT into `sme_designations`, under `uq_sme_designations_topic_user`. -/
def insertSmeDesignation (row : SmeDesignation) (s : Store) : Except Exc Store :=
  if row ∈ s.smeDesignations then .error uniqueViolation
  else if (s.topic? row.topicId).isSome ∧ (s.user? row.userId).isSome then
    .ok { s with smeDesignations := s.smeDesignations ++ [row] }
  else .error foreignKeyViolation

end Store

namespace Creation

/-- `register`, where the limiter let it through. The second transaction opens the session. -/
def register (env : Credentials) (payload : RegisterIn) (userId : Uuid) (token : String) :
    CreationProgram :=
  let user : User :=
    ⟨userId, env.lower payload.email, env.hashPassword payload.password, payload.displayName, .user⟩
  checkThenInsert
    (fun s => withTexts [env.lower payload.email]
      (.ok (refuse (s.users.any (·.email = env.lower payload.email)) 409
        "Email already registered")))
    (Store.insertNewUser user)
    fun _ => .commit .session (fun s => .ok (openSession s user.id token)) fun
      | .error exc => .raised exc
      | .ok () => .ret (.ok (.user user))

def createTopic (payload : TopicCreateIn) (topicId : Uuid) : CreationProgram :=
  let name := Text.strip payload.name
  let topic : Topic := ⟨topicId, name⟩
  checkThenInsert
    (fun s =>
      if name = "" then .ok (.error ⟨422, "name is required"⟩)
      else withTexts [name]
        (.ok (refuse (s.topics.any (·.name = name)) 409 "Topic name already exists")))
    (Store.insertTopic topic (Text.strip payload.description))
    fun _ => .ret (.ok (.topic topic))

def addSme (topicId : Uuid) (payload : SmeDesignationIn) : CreationProgram :=
  checkThenInsert
    (fun s => .ok do
      let _ ← orRefuse (s.topic? topicId) ⟨404, "Topic not found"⟩
      let user ← orRefuse (s.user? payload.userId) ⟨404, "User not found"⟩
      refuse (⟨topicId, payload.userId⟩ ∈ s.smeDesignations) 409
        "User is already an SME for this topic"
      return user)
    (Store.insertSmeDesignation ⟨topicId, payload.userId⟩)
    fun user => .ret (.ok (.sme user))

end Creation

/-- Alone with the database, a registration that the limiter and the driver let through leaves what
`register` leaves. -/
theorem Creation.register_alone (env : Credentials) (σ : AuthState) (payload : RegisterIn)
    (clientIp : String) (userId : Uuid) (token : String)
    (allowed : refuseLimited (σ.limiter.check ("register:" ++ clientIp) registerLimit windowSeconds
      σ.monotonic).1 "too many registrations from this client" = .ok ())
    (texts : [env.lower payload.email, env.hashPassword payload.password,
      payload.displayName].all storable = true) :
    ((Creation.register env payload userId token).exec (fun _ => none) σ.store).2 =
      (Docsage.register env σ payload clientIp userId token).2.store := by
  have hemail : storable (env.lower payload.email) = true :=
    List.all_eq_true.mp texts _ List.mem_cons_self
  simp only [Docsage.register, allowed, Creation.register, checkThenInsert, Program.exec]
  cases hany : σ.store.users.any (·.email = env.lower payload.email) with
  | true => simp [withTexts, hemail, refuse, Program.exec]
  | false =>
    simp [withTexts, hemail, refuse, Program.exec, attempt, Store.insertNewUser, hany, texts]

/-- A request, with the ids and the token that its handler draws. -/
inductive CreationRequest where
  | register (payload : RegisterIn) (userId : Uuid) (token : String)
  | createTopic (payload : TopicCreateIn) (topicId : Uuid)
  | addSme (topicId : Uuid) (payload : SmeDesignationIn)

inductive UniqueKey where
  | email (address : String)
  | topicName (name : String)
  | designation (topicId userId : Uuid)
deriving DecidableEq

namespace CreationRequest

def program (env : Credentials) : CreationRequest → CreationProgram
  | .register payload userId token => Creation.register env payload userId token
  | .createTopic payload topicId => Creation.createTopic payload topicId
  | .addSme topicId payload => Creation.addSme topicId payload

/-- The email up to case, the trimmed name, the topic and the user. -/
def key (env : Credentials) : CreationRequest → UniqueKey
  | .register payload _ _ => .email (env.lower payload.email)
  | .createTopic payload _ => .topicName (Text.strip payload.name)
  | .addSme topicId payload => .designation topicId payload.userId

def texts (env : Credentials) : CreationRequest → List String
  | .register payload _ _ =>
    [env.lower payload.email, env.hashPassword payload.password, payload.displayName]
  | .createTopic payload _ => [Text.strip payload.name, Text.strip payload.description]
  | .addSme _ _ => []

def isStorable (env : Credentials) (q : CreationRequest) : Bool := (q.texts env).all storable

end CreationRequest

namespace UniqueKey

def rows (key : UniqueKey) (s : Store) : ℕ :=
  match key with
  | .email address => s.users.countP (·.email = address)
  | .topicName name => s.topics.countP (·.name = name)
  | .designation topicId userId => s.smeDesignations.count ⟨topicId, userId⟩

/-- A row of the key can be there: a topic has a name, and a designation its topic and user. -/
def Creatable (key : UniqueKey) (s : Store) : Prop :=
  match key with
  | .email _ => True
  | .topicName name => name ≠ ""
  | .designation topicId userId => (s.topic? topicId).isSome ∧ (s.user? userId).isSome

def isStorable : UniqueKey → Bool
  | .email text | .topicName text => storable text
  | .designation _ _ => true

def after : UniqueKey → ℕ
  | .email _ => 1
  | .topicName _ | .designation _ _ => 0

end UniqueKey

/-- The database, and the requests suspended at their next accesses. -/
structure CreationRace where
  store : Store
  requests : List CreationProgram

def statusCode : CreationProgram → Option ℕ
  | .ret (.ok _) => some 201
  | .ret (.error error) => some error.status
  | .raised _ => some internalError.status
  | .read _ | .commit _ _ _ => none

namespace CreationRace

def start (env : Credentials) (requests : List CreationRequest) (store : Store) : CreationRace :=
  ⟨store, requests.map (·.program env)⟩

def step (r : CreationRace) (i : ℕ) : Option CreationRace :=
  (r.requests[i]?).bind fun p =>
    (p.resume none r.store).map fun next => ⟨next.2, r.requests.set i next.1⟩

def answers (r : CreationRace) : List (Option ℕ) := r.requests.map statusCode

/-- Everybody is answered, one with success and the others with 409, and there is one row. -/
def Clean (key : UniqueKey) (r : CreationRace) : Prop :=
  r.answers.count (some 201) = 1 ∧ (∀ answer ∈ r.answers, answer = some 201 ∨ answer = some 409) ∧
    key.rows r.store = 1

def checks : CreationProgram → Prop
  | .read _ => True
  | _ => False

/-- The request passed its checks, and its INSERT is next. -/
def inserts : CreationProgram → Prop
  | .commit .insert _ _ => True
  | _ => False

/-- A request that performs its checks on a free key has texts that can be stored, and no other one
is between its checks and its INSERT. -/
def OneAtATime (env : Credentials) (requests : List CreationRequest) (key : UniqueKey)
    (r : CreationRace) (i : ℕ) : Prop :=
  key.rows r.store = 0 → ∀ q p, requests[i]? = some q → r.requests[i]? = some p → checks p →
    q.isStorable env = true ∧ ∀ p' ∈ r.requests, ¬ inserts p'

end CreationRace

variable {key : UniqueKey} {s s' : Store} {env : Credentials} {able : Bool}

/-- What the winner does after its INSERT: transactions that do not touch the rows of the key. -/
inductive Settling (key : UniqueKey) : ℕ → CreationProgram → Prop where
  | done (created : Created) : Settling key 0 (.ret (.ok created))
  | more {left : ℕ} {t : Store → Store} {next : Except Exc Unit → CreationProgram}
    (rows : ∀ s, key.rows (t s) = key.rows s) (creatable : ∀ s, key.Creatable s →
      key.Creatable (t s)) (rest : Settling key left (next (.ok ()))) :
    Settling key (left + 1) (.commit .session (fun s => .ok (t s)) next)

/-- An INSERT of a row of the key under its constraint, by a request that is able to or not. -/
structure Inserts (key : UniqueKey) (able : Bool) (insert : Store → Except Exc Store) : Prop where
  violates : ∀ s, key.rows s ≠ 0 → ∃ exc, insert s = .error exc
  unable : able = false → ∀ s, ∃ exc, insert s = .error exc
  inserts : able = true → ∀ s, key.Creatable s → key.rows s = 0 →
    ∃ s', insert s = .ok s' ∧ key.rows s' = 1 ∧ key.Creatable s'

/-- The program of a request for the key that stands at a stage. -/
inductive At (key : UniqueKey) : Stage → CreationProgram → Prop where
  | won {left : ℕ} {p : CreationProgram} (rest : Settling key left p) : At key (.won left) p
  | refused {error : HttpError} (status : error.status = 409) :
    At key .refused (.ret (.error error))
  | failed (exc : Exc) : At key .failed (.raised exc)
  | passed {able : Bool} {insert : Store → Except Exc Store}
    {next : Except Exc Unit → CreationProgram}
    (inserts : Inserts key able insert) (rest : Settling key key.after (next (.ok ())))
    (unhandled : ∀ exc, next (.error exc) = .raised exc) :
    At key (.passed able) (.commit .insert insert next)
  | arrived {able : Bool} {next : Except Exc Store → CreationProgram}
    (free : ∀ s, key.Creatable s → key.rows s = 0 → At key (.passed able) (next (.ok s)))
    (taken : ∀ s, key.Creatable s → key.rows s ≠ 0 → At key .refused (next (.ok s))) :
    At key (.arrived able) (.read next)

/-- A handler with these checks and this INSERT, before its first access. -/
theorem At.checkThenInsert {α : Type} {checks : Store → Except Exc (Except HttpError α)}
    {insert : Store → Except Exc Store} {rest : α → CreationProgram} (detail : String)
    (free : ∀ s, key.Creatable s → key.rows s = 0 → ∃ found, checks s = .ok (.ok found))
    (taken : ∀ s, key.Creatable s → key.rows s ≠ 0 → checks s = .ok (.error ⟨409, detail⟩))
    (inserts : Inserts key able insert)
    (settling : ∀ found, Settling key key.after (rest found)) :
    At key (.arrived able) (Docsage.checkThenInsert checks insert rest) := by
  refine .arrived (fun s creatable hrows => ?_) fun s creatable hrows => ?_
  · obtain ⟨found, hfound⟩ := free s creatable hrows
    simp only [hfound]
    exact .passed inserts (settling found) fun _ => rfl
  · simp only [taken s creatable hrows]
    exact .refused rfl

theorem Inserts.withTexts {texts : List String} {insert : Store → Except Exc Store}
    (violates : ∀ s, key.rows s ≠ 0 → insert s = .error uniqueViolation)
    (inserts : ∀ s, key.Creatable s → key.rows s = 0 →
      ∃ s', insert s = .ok s' ∧ key.rows s' = 1 ∧ key.Creatable s') :
    Inserts key (texts.all storable) fun s => Docsage.withTexts texts (insert s) where
  violates s hrows := by
    unfold Docsage.withTexts
    split
    · exact ⟨_, violates s hrows⟩
    · exact ⟨_, rfl⟩
  unable hunable s := ⟨nulInText, by simp [Docsage.withTexts, hunable]⟩
  inserts hable s creatable hrows := by
    simpa only [Docsage.withTexts, hable, if_true] using inserts s creatable hrows

theorem any_iff_countP {α : Type} {p : α → Bool} {rows : List α} :
    rows.any p ↔ rows.countP p ≠ 0 := by
  rw [List.any_eq_true, ← Nat.pos_iff_ne_zero, List.countP_pos_iff]

theorem mem_iff_count {row : SmeDesignation} {rows : List SmeDesignation} :
    row ∈ rows ↔ rows.count row ≠ 0 := by
  rw [← Nat.pos_iff_ne_zero, List.count_pos_iff]

theorem register_at (payload : RegisterIn) (userId : Uuid) (token : String)
    (stored : storable (env.lower payload.email) = true) :
    At (.email (env.lower payload.email))
      (.arrived ((CreationRequest.register payload userId token).isStorable env))
      (Creation.register env payload userId token) := by
  have hchecks (s : Store) : withTexts [env.lower payload.email]
      (.ok (refuse (s.users.any (·.email = env.lower payload.email)) 409
        "Email already registered")) = .ok (refuse
          (s.users.any (·.email = env.lower payload.email)) 409 "Email already registered") :=
    if_pos (by simp [stored])
  refine .checkThenInsert "Email already registered"
    (fun s _ hrows => ⟨(), ?_⟩) (fun s _ hrows => ?_) (.withTexts ?_ ?_) fun _ => ?_
  · rw [hchecks]
    exact congrArg Except.ok (if_neg fun hany => any_iff_countP.mp hany hrows)
  · rw [hchecks]
    exact congrArg Except.ok (if_pos (any_iff_countP.mpr hrows))
  · exact fun s hrows => if_pos (any_iff_countP.mpr hrows)
  · intro s creatable hrows
    refine ⟨_, if_neg fun hany => any_iff_countP.mp hany hrows, ?_, trivial⟩
    simp only [UniqueKey.rows, Store.insertUser, List.countP_append] at hrows ⊢
    simp [hrows]
  · exact .more (fun _ => rfl) (fun _ _ => trivial) (.done _)

theorem createTopic_at (payload : TopicCreateIn) (topicId : Uuid)
    (stored : storable (Text.strip payload.name) = true) :
    At (.topicName (Text.strip payload.name))
      (.arrived ((CreationRequest.createTopic payload topicId).isStorable env))
      (Creation.createTopic payload topicId) := by
  have hchecks (s : Store) : withTexts [Text.strip payload.name]
      (.ok (refuse (s.topics.any (·.name = Text.strip payload.name)) 409
        "Topic name already exists")) = .ok (refuse
          (s.topics.any (·.name = Text.strip payload.name)) 409 "Topic name already exists") :=
    if_pos (by simp [stored])
  refine .checkThenInsert "Topic name already exists"
    (fun s named hrows => ⟨(), ?_⟩) (fun s named hrows => ?_) (.withTexts ?_ ?_) fun _ => .done _
  · rw [if_neg named, hchecks]
    exact congrArg Except.ok (if_neg fun hany => any_iff_countP.mp hany hrows)
  · rw [if_neg named, hchecks]
    exact congrArg Except.ok (if_pos (any_iff_countP.mpr hrows))
  · exact fun s hrows => if_pos (any_iff_countP.mpr hrows)
  · intro s named hrows
    refine ⟨_, if_neg fun hany => any_iff_countP.mp hany hrows, ?_, named⟩
    simp only [UniqueKey.rows, List.countP_append] at hrows ⊢
    simp [hrows]

theorem addSme_at (topicId : Uuid) (payload : SmeDesignationIn) :
    At (.designation topicId payload.userId) (.arrived true)
      (Creation.addSme topicId payload) := by
  refine .checkThenInsert "User is already an SME for this topic"
    (fun s there hrows => ?_) (fun s there hrows => congrArg Except.ok ?_) ⟨?_, nofun, ?_⟩
    fun _ => .done _
  · obtain ⟨topic, htopic⟩ := Option.isSome_iff_exists.mp there.1
    obtain ⟨user, huser⟩ := Option.isSome_iff_exists.mp there.2
    refine ⟨user, congrArg Except.ok ?_⟩
    rw [orRefuse_bind_some htopic, orRefuse_bind_some huser,
      refuse_bind_of_not fun hmem => mem_iff_count.mp hmem hrows]
    rfl
  · obtain ⟨topic, htopic⟩ := Option.isSome_iff_exists.mp there.1
    obtain ⟨user, huser⟩ := Option.isSome_iff_exists.mp there.2
    rw [orRefuse_bind_some htopic, orRefuse_bind_some huser,
      refuse_bind_of (mem_iff_count.mpr hrows)]
  · exact fun s hrows => ⟨_, if_pos (mem_iff_count.mpr hrows)⟩
  · intro _ s there hrows
    refine ⟨_, (if_neg fun hmem => mem_iff_count.mp hmem hrows).trans (if_pos there), ?_, there⟩
    simp only [UniqueKey.rows, List.count_append] at hrows ⊢
    simp [hrows]

/-- Every request stands before its checks when it arrives, able to insert if its texts can be
stored. -/
theorem CreationRequest.program_at (q : CreationRequest)
    (stored : (q.key env).isStorable = true) :
    At (q.key env) (.arrived (q.isStorable env)) (q.program env) := by
  cases q with
  | register payload userId token => exact register_at payload userId token stored
  | createTopic payload topicId => exact createTopic_at payload topicId stored
  | addSme topicId payload => exact addSme_at topicId payload

/-- Of a key that cannot be stored, the first SELECT already raises. -/
theorem CreationRequest.program_unstorable (q : CreationRequest)
    (unstorable : (q.key env).isStorable = false) (s : Store) :
    (q.program env).resume none s = some (.raised nulInText, s) := by
  cases q with
  | register payload userId token =>
    have htext : storable (env.lower payload.email) = false := unstorable
    simp [program, Creation.register, checkThenInsert, Program.resume, withTexts, htext]
  | createTopic payload topicId =>
    have htext : storable (Text.strip payload.name) = false := unstorable
    have hnamed : Text.strip payload.name ≠ "" := by
      intro hempty
      rw [hempty] at htext
      cases htext
    simp [program, Creation.createTopic, checkThenInsert, Program.resume, withTexts, htext, hnamed]
  | addSme topicId payload => cases unstorable

theorem CreationRequest.key_storable {q : CreationRequest} (h : q.isStorable env = true) :
    (q.key env).isStorable = true := by
  cases q with
  | register | createTopic => exact List.all_eq_true.mp h _ List.mem_cons_self
  | addSme => rfl

def UniqueKey.taken (key : UniqueKey) (s : Store) : Bool := key.rows s ≠ 0

/-- A store in which the key can be created, and where its constraint holds. -/
structure Ready (key : UniqueKey) (s : Store) : Prop where
  creatable : key.Creatable s
  unique : key.rows s ≤ 1
  stored : key.rows s ≠ 0 → key.isStorable = true

/-- One access of a request is one move of the race. -/
theorem At.resume {stage : Stage} {p p' : CreationProgram} (standing : At key stage p)
    (stored : key.isStorable = true) (ready : Ready key s) (h : p.resume none s = some (p', s')) :
    ∃ next, advance key.after (key.taken s) stage = some next ∧ At key next.2 p' ∧
      Ready key s' ∧ key.taken s' = next.1 := by
  cases standing with
  | won rest =>
    cases rest with
    | done created => cases h
    | @more left t next rows creatable rest =>
      obtain ⟨rfl, rfl⟩ := Prod.mk.inj (Option.some.inj h)
      refine ⟨_, rfl, .won rest, ⟨creatable s ready.creatable, ?_, fun _ => stored⟩, ?_⟩
      · exact (rows s).trans_le ready.unique
      · simp [UniqueKey.taken, attempt, rows]
  | refused | failed => cases h
  | @passed able insert next inserts rest unhandled =>
    obtain ⟨rfl, rfl⟩ := Prod.mk.inj (Option.some.inj h)
    refine ⟨_, rfl, ?_⟩
    by_cases hrows : key.rows s = 0
    · have hfree : key.taken s = false := by simp [UniqueKey.taken, hrows]
      cases hable : able with
      | true =>
        obtain ⟨s', hinsert, hone, creatable⟩ := inserts.inserts hable s ready.creatable hrows
        simp only [attempt_none hinsert, hfree]
        exact ⟨.won rest, ⟨creatable, hone.le, fun _ => stored⟩, by simp [UniqueKey.taken, hone]⟩
      | false =>
        obtain ⟨exc, hinsert⟩ := inserts.unable hable s
        simp only [attempt, hinsert, unhandled, hfree]
        exact ⟨.failed _, ready, rfl⟩
    · have htaken : key.taken s = true := by simp [UniqueKey.taken, hrows]
      obtain ⟨exc, hinsert⟩ := inserts.violates s hrows
      simp only [attempt, hinsert, unhandled, htaken]
      exact ⟨.failed _, ready, (Bool.true_or able).symm⟩
  | @arrived able next free taken =>
    obtain ⟨rfl, rfl⟩ := Prod.mk.inj (Option.some.inj h)
    refine ⟨_, rfl, ?_, ready, rfl⟩
    by_cases hrows : key.rows s = 0
    · simpa [UniqueKey.taken, hrows] using free s ready.creatable hrows
    · simpa [UniqueKey.taken, hrows] using taken s ready.creatable hrows

namespace CreationRace

structure Follows (env : Credentials) (requests : List CreationRequest) (key : UniqueKey)
    (r : CreationRace) (race : State) : Prop where
  ready : Ready key r.store
  taken : race.taken = key.taken r.store
  length : r.requests.length = race.stages.length
  standing : ∀ (i : ℕ) (p : CreationProgram) (stage : Stage), r.requests[i]? = some p →
    race.stages[i]? = some stage → At key stage p
  able : ∀ (i : ℕ) (able : Bool), race.stages[i]? = some (.arrived able) →
    ∃ q, requests[i]? = some q ∧ q.isStorable env = able

variable {requests : List CreationRequest} {r r' : CreationRace} {race : State} {stage : Stage}
  {p : CreationProgram} {i : ℕ}

theorem Follows.exists_stage (follows : Follows env requests key r race)
    (h : r.requests[i]? = some p) : ∃ stage, race.stages[i]? = some stage ∧ At key stage p := by
  obtain ⟨hi, -⟩ := List.getElem?_eq_some_iff.mp h
  rw [follows.length] at hi
  exact ⟨_, List.getElem?_eq_getElem hi, follows.standing i p _ h (List.getElem?_eq_getElem hi)⟩

theorem Follows.exists_request (follows : Follows env requests key r race)
    (h : race.stages[i]? = some stage) : ∃ p, r.requests[i]? = some p ∧ At key stage p := by
  obtain ⟨hi, -⟩ := List.getElem?_eq_some_iff.mp h
  rw [← follows.length] at hi
  exact ⟨_, List.getElem?_eq_getElem hi, follows.standing i _ stage (List.getElem?_eq_getElem hi) h⟩

theorem advance_ne_arrived {after : ℕ} {taken : Bool} {next : Bool × Stage}
    (h : advance after taken stage = some next) : next.2 ≠ .arrived able := by
  rcases advance_cases h with ⟨able, rfl, rfl⟩ | ⟨able, rfl, rfl⟩ | ⟨left, rfl, rfl⟩
  · cases taken <;> simp
  · cases taken <;> cases able <;> simp
  · simp

theorem Follows.step (stored : key.isStorable = true)
    (follows : Follows env requests key r race) (h : r.step i = some r') :
    ∃ race', Race.step key.after race i = some race' ∧ Follows env requests key r' race' := by
  obtain ⟨p, hp, h⟩ := Option.bind_eq_some_iff.mp h
  obtain ⟨⟨p', s'⟩, hresume, rfl⟩ := Option.map_eq_some_iff.mp h
  obtain ⟨stage, hstage, standing⟩ := follows.exists_stage hp
  obtain ⟨next, hnext, standing', ready, htaken⟩ := standing.resume stored follows.ready hresume
  refine ⟨⟨next.1, race.stages.set i next.2⟩, ?_, ready, htaken.symm, ?_,
    fun j q stage' hq hs => ?_, fun j able hable => ?_⟩
  · rw [Race.step, hstage, Option.bind_some, follows.taken, hnext]
    rfl
  · simp [follows.length]
  · rw [List.getElem?_set] at hq hs
    split_ifs at hq hs with hj hlt hlt'
    · obtain rfl := Option.some.inj hq
      obtain rfl := Option.some.inj hs
      exact standing'
    · exact follows.standing j q stage' hq hs
  · rw [List.getElem?_set] at hable
    split_ifs at hable with hj hlt
    · exact absurd (Option.some.inj hable) (advance_ne_arrived hnext)
    · exact follows.able j able hable

theorem checks_iff (standing : At key stage p) : checks p ↔ ∃ able, stage = .arrived able := by
  cases standing with
  | won rest => cases rest <;> exact iff_of_false id (by simp)
  | refused | failed | passed => exact iff_of_false id (by simp)
  | @arrived able => exact iff_of_true trivial ⟨able, rfl⟩

theorem inserts_iff (standing : At key stage p) : inserts p ↔ ∃ able, stage = .passed able := by
  cases standing with
  | won rest => cases rest <;> exact iff_of_false id (by simp)
  | refused | failed | arrived => exact iff_of_false id (by simp)
  | @passed able => exact iff_of_true trivial ⟨able, rfl⟩

theorem taken_eq_false {s : Store} : key.taken s = false ↔ key.rows s = 0 := by
  simp [UniqueKey.taken]

/-- The two disciplines are one. -/
theorem Follows.inTurn (follows : Follows env requests key r race) :
    OneAtATime env requests key r i ↔ InTurn race i := by
  rw [OneAtATime, InTurn, follows.taken, taken_eq_false]
  refine forall_congr' fun _ => ⟨fun h able harrived => ?_, fun h q p hq hp hchecks => ?_⟩
  · obtain ⟨p, hp, standing⟩ := follows.exists_request harrived
    obtain ⟨q, hq, rfl⟩ := follows.able i able harrived
    obtain ⟨hstorable, hnobody⟩ := h q p hq hp ((checks_iff standing).mpr ⟨_, rfl⟩)
    refine ⟨hstorable, fun other hpassed => ?_⟩
    obtain ⟨j, hj⟩ := List.mem_iff_getElem?.mp hpassed
    obtain ⟨p', hp', standing'⟩ := follows.exists_request hj
    exact hnobody p' (List.mem_of_getElem? hp') ((inserts_iff standing').mpr ⟨_, rfl⟩)
  · obtain ⟨stage, hstage, standing⟩ := follows.exists_stage hp
    obtain ⟨able, rfl⟩ := (checks_iff standing).mp hchecks
    obtain ⟨q', hq', rfl⟩ := follows.able i able hstage
    obtain rfl : q' = q := Option.some.inj (hq'.symm.trans hq)
    obtain ⟨hstorable, hnobody⟩ := h _ hstage
    refine ⟨hstorable, fun p' hp' hinserts => ?_⟩
    obtain ⟨j, hj⟩ := List.mem_iff_getElem?.mp hp'
    obtain ⟨stage', hstage', standing'⟩ := follows.exists_stage hj
    obtain ⟨other, rfl⟩ := (inserts_iff standing').mp hinserts
    exact hnobody other (List.mem_of_getElem? hstage')

def stageCode : Stage → Option ℕ
  | .won 0 => some 201
  | .refused => some 409
  | .failed => some 500
  | .arrived _ | .passed _ | .won (_ + 1) => none

theorem statusCode_eq (standing : At key stage p) : statusCode p = stageCode stage := by
  cases standing with
  | won rest => cases rest <;> rfl
  | refused status => exact congrArg some status
  | failed | passed | arrived => rfl

theorem Follows.answers (follows : Follows env requests key r race) :
    r.answers = race.stages.map stageCode := by
  apply List.ext_getElem?
  intro i
  rw [CreationRace.answers, List.getElem?_map, List.getElem?_map]
  cases h : r.requests[i]? with
  | none =>
    rw [List.getElem?_eq_none_iff, follows.length, ← List.getElem?_eq_none_iff] at h
    rw [h]
    rfl
  | some p =>
    obtain ⟨stage, hstage, standing⟩ := follows.exists_stage h
    rw [hstage, Option.map_some, Option.map_some, statusCode_eq standing]

theorem ended_of_answered {stages : List Stage} (answered : none ∉ stages.map stageCode) :
    ∀ stage ∈ stages, stage.ended := by
  intro stage hstage
  have hcode : stageCode stage ≠ none := fun h => answered (h ▸ List.mem_map_of_mem hstage)
  match stage with
  | .won 0 | .refused | .failed => rfl
  | .arrived _ | .passed _ | .won (_ + 1) => exact absurd rfl hcode

theorem count_success {stages : List Stage} (ended : ∀ stage ∈ stages, stage.ended) :
    (stages.map stageCode).count (some 201) = stages.countP Stage.hasWon := by
  induction stages with
  | nil => rfl
  | cons stage stages ih =>
    rw [List.forall_mem_cons] at ended
    rw [List.map_cons, List.count_cons, List.countP_cons, ih ended.2]
    match stage, ended.1 with
    | .won 0, _ => rfl
    | .refused, _ | .failed, _ => rfl

/-- Nobody ends in a server error exactly when no INSERT fails. -/
theorem answers_clean_iff {stages : List Stage} (ended : ∀ stage ∈ stages, stage.ended) :
    (∀ answer ∈ stages.map stageCode, answer = some 201 ∨ answer = some 409) ↔
      .failed ∉ stages := by
  rw [List.forall_mem_map]
  constructor
  · intro h hfailed
    simpa [stageCode] using h _ hfailed
  · intro h stage hstage
    match stage, ended stage hstage, hstage with
    | .won 0, _, _ => exact .inl rfl
    | .refused, _, _ => exact .inr rfl
    | .failed, _, hstage => exact absurd hstage h

theorem start_follows (stored : key.isStorable = true)
    (same : ∀ q ∈ requests, q.key env = key) (ready : Ready key s) :
    Follows env requests key (start env requests s)
      ⟨key.taken s, (requests.map (·.isStorable env)).map .arrived⟩ where
  ready := ready
  taken := rfl
  length := by simp [start]
  standing i p stage hp hstage := by
    simp only [start, List.getElem?_map] at hp hstage
    obtain ⟨q, hq, rfl⟩ := Option.map_eq_some_iff.mp hp
    rw [hq] at hstage
    obtain rfl := Option.some.inj hstage
    have hkey := same q (List.mem_of_getElem? hq)
    have hstored : (q.key env).isStorable = true := by rw [hkey]; exact stored
    have hat := q.program_at hstored
    rwa [hkey] at hat
  able i able hable := by
    simpa [List.getElem?_map] using hable

/-- The requests run the race of the library, under its discipline where they keep theirs. -/
theorem follows_run {store : Store} {moves : List ℕ} (stored : key.isStorable = true)
    (same : ∀ q ∈ requests, q.key env = key) (ready : Ready key store)
    (done : execute step (start env requests store) moves = some r) :
    ∃ race, execute (Race.step key.after)
        ⟨key.taken store, (requests.map (·.isStorable env)).map .arrived⟩ moves = some race ∧
      Follows env requests key r race ∧
      (Obeys step (OneAtATime env requests key) (start env requests store) moves ↔
        Obeys (Race.step key.after) InTurn
          ⟨key.taken store, (requests.map (·.isStorable env)).map .arrived⟩ moves) := by
  have lockstep (r race i r') (follows : Follows env requests key r race) (h : step r i = some r') :
      ∃ race', Race.step key.after race i = some race' ∧ Follows env requests key r' race' :=
    follows.step stored h
  have disciplines (r race i) (follows : Follows env requests key r race) :
      OneAtATime env requests key r i ↔ InTurn race i := follows.inTurn
  exact execute_lockstep lockstep disciplines (start_follows stored same ready) done

theorem Follows.rows (follows : Follows env requests key r race) (taken : race.taken = true) :
    key.rows r.store = 1 := by
  rw [follows.taken] at taken
  have hne : key.rows r.store ≠ 0 := by simpa [UniqueKey.taken] using taken
  have hle := follows.ready.unique
  omega

/-- A key that cannot be stored: every request stands before its first SELECT, or has raised. -/
theorem unstorable_requests {store : Store} {moves : List ℕ}
    (unstorable : key.isStorable = false) (same : ∀ q ∈ requests, q.key env = key)
    (done : execute step (start env requests store) moves = some r) :
    ∀ p ∈ r.requests, (∃ q ∈ requests, p = q.program env) ∨ ∃ exc, p = .raised exc := by
  have run : Run step (fun _ _ => True) (start env requests store) r :=
    .of_execute (obeys_true _ _) done
  refine run.invariant (I := fun r => ∀ p ∈ r.requests,
    (∃ q ∈ requests, p = q.program env) ∨ ∃ exc, p = .raised exc)
    (List.forall_mem_map.mpr fun q hq => .inl ⟨q, hq, rfl⟩) ?_
  rintro r i r' h - taken p hp
  obtain ⟨p', hp', taken⟩ := Option.bind_eq_some_iff.mp taken
  obtain ⟨⟨next, s'⟩, hresume, rfl⟩ := Option.map_eq_some_iff.mp taken
  rcases List.mem_or_eq_of_mem_set hp with hp | rfl
  · exact h p hp
  · rcases h p' (List.mem_of_getElem? hp') with ⟨q, hq, rfl⟩ | ⟨exc, rfl⟩
    · rw [q.program_unstorable (by rw [same q hq]; exact unstorable)] at hresume
      obtain ⟨rfl, -⟩ := Prod.mk.inj (Option.some.inj hresume)
      exact .inr ⟨_, rfl⟩
    · cases hresume

theorem unstorable_not_clean {store : Store} {moves : List ℕ}
    (unstorable : key.isStorable = false) (same : ∀ q ∈ requests, q.key env = key)
    (done : execute step (start env requests store) moves = some r) : ¬ Clean key r := by
  rintro ⟨hone, -⟩
  have hmem : some 201 ∈ r.answers := List.count_pos_iff.mp (by omega)
  obtain ⟨p, hp, hcode⟩ := List.mem_map.mp hmem
  rcases unstorable_requests unstorable same done p hp with ⟨q, -, rfl⟩ | ⟨exc, rfl⟩
  · cases q <;> cases hcode
  · exact absurd hcode (by simp [statusCode, internalError])

theorem unstorable_not_obeys {store : Store} {moves : List ℕ}
    (unstorable : key.isStorable = false) (same : ∀ q ∈ requests, q.key env = key)
    (many : requests ≠ []) (free : key.rows store = 0)
    (done : execute step (start env requests store) moves = some r)
    (answered : none ∉ r.answers) :
    ¬ Obeys step (OneAtATime env requests key) (start env requests store) moves := by
  have hchecks (q : CreationRequest) : checks (q.program env) := by cases q <;> trivial
  intro obeys
  cases moves with
  | nil =>
    obtain rfl : start env requests store = r := by simpa [execute] using done
    obtain ⟨q, rest, rfl⟩ := List.exists_cons_of_ne_nil many
    apply answered
    cases q <;> exact List.mem_cons_self
  | cons i moves =>
    obtain ⟨r', hstep, -⟩ := Option.bind_eq_some_iff.mp done
    obtain ⟨p, hp, -⟩ := Option.bind_eq_some_iff.mp hstep
    have hrequest := hp
    rw [start, List.getElem?_map] at hrequest
    obtain ⟨q, hq, rfl⟩ := Option.map_eq_some_iff.mp hrequest
    have hstorable := CreationRequest.key_storable (obeys.1 free q _ hq hp (hchecks q)).1
    rw [same q (List.mem_of_getElem? hq), unstorable] at hstorable
    cases hstorable

/-- Requests that create one key, once all are answered. Where it was free, they race cleanly
exactly as long as no request checks the free key whose texts cannot be stored, or while another one
is between its checks and its INSERT; one of them succeeds and there is one row in any case, if the
texts of some request can be stored. Where it was taken, all get a 409. -/
theorem unique_creation_iff (env : Credentials) {key : UniqueKey}
    {requests : List CreationRequest} {store : Store} {moves : List ℕ} {r : CreationRace}
    (same : ∀ q ∈ requests, q.key env = key) (many : requests ≠ []) (ready : Ready key store)
    (done : execute step (start env requests store) moves = some r)
    (answered : none ∉ r.answers) :
    (key.rows store = 0 →
      (Clean key r ↔
        Obeys step (OneAtATime env requests key) (start env requests store) moves) ∧
      ((∃ q ∈ requests, q.isStorable env = true) →
        r.answers.count (some 201) = 1 ∧ key.rows r.store = 1)) ∧
    (key.rows store ≠ 0 → (∀ answer ∈ r.answers, answer = some 409) ∧
      key.rows r.store = 1) := by
  cases hkey : key.isStorable with
  | false =>
    refine ⟨fun hfree => ⟨iff_of_false (unstorable_not_clean hkey same done)
      (unstorable_not_obeys hkey same many hfree done answered), ?_⟩, fun htaken => ?_⟩
    · rintro ⟨q, hq, hstorable⟩
      have hstored := CreationRequest.key_storable hstorable
      rw [same q hq, hkey] at hstored
      cases hstored
    · rw [ready.stored htaken] at hkey
      cases hkey
  | true =>
    obtain ⟨race, hrace, follows, hobeys⟩ := follows_run hkey same ready done
    rw [follows.answers] at answered
    have ended := ended_of_answered answered
    rw [hobeys, Clean, follows.answers, count_success ended, answers_clean_iff ended]
    refine ⟨fun hfree => ?_, fun htaken => ?_⟩
    · rw [taken_eq_false.mpr hfree] at hrace ⊢
      obtain ⟨hturns, hwon⟩ := race_free (by simpa using many) hrace ended
      refine ⟨?_, fun ⟨q, hq, hstorable⟩ => ?_⟩
      · have hclean (h : .failed ∉ race.stages) := hwon (.inl h)
        refine Iff.trans ⟨fun h => h.2.1, fun h => ?_⟩ hturns
        exact ⟨(hclean h).2, h, follows.rows (hclean h).1⟩
      · have hable : true ∈ requests.map (·.isStorable env) :=
          List.mem_map.mpr ⟨q, hq, hstorable⟩
        exact ⟨(hwon (.inr hable)).2, follows.rows (hwon (.inr hable)).1⟩
    · have htakenKey : key.taken store = true := by simpa [UniqueKey.taken] using htaken
      rw [htakenKey] at hrace
      obtain ⟨htaken, hrefused⟩ := race_occupied hrace ended
      refine ⟨?_, follows.rows htaken⟩
      rw [List.forall_mem_map]
      intro stage hstage
      rw [hrefused stage hstage]
      rfl

namespace Designations

/-! Two admins designate the same SME. -/

def credentials : Credentials where
  lower := id
  hashPassword := id
  verifyPassword password hash := password = hash

def agency : Store where
  now := 0
  users := [⟨2, "sam@agency.test", "", "Sam", .user⟩]
  topics := [⟨10, "Finance"⟩]

def twoAdmins : List CreationRequest := [.addSme 10 ⟨2⟩, .addSme 10 ⟨2⟩]

theorem same : ∀ q ∈ twoAdmins, q.key credentials = .designation 10 2 := by
  intro q hq
  rw [List.eq_of_mem_replicate (show q ∈ List.replicate 2 (.addSme 10 ⟨2⟩) from hq)]
  rfl

theorem ready : Ready (.designation 10 2) agency := ⟨⟨rfl, rfl⟩, by decide, fun _ => rfl⟩

end Designations

open Designations

/-- The first request is through before the second one checks. -/
theorem unique_creation_iff_in_turn : ∃ r,
    execute step (start credentials twoAdmins agency) [0, 0, 1] = some r ∧
    r.answers = [some 201, some 409] ∧
    Obeys step (OneAtATime credentials twoAdmins (.designation 10 2))
      (start credentials twoAdmins agency) [0, 0, 1] := by
  have hrun : (execute step (start credentials twoAdmins agency) [0, 0, 1]).map (fun r =>
      (r.answers, r.store.smeDesignations)) = some ([some 201, some 409], [⟨10, 2⟩]) := rfl
  obtain ⟨r, hr, hvalues⟩ := Option.map_eq_some_iff.mp hrun
  obtain ⟨hanswers, hrows⟩ := Prod.mk.inj hvalues
  have clean : Clean (.designation 10 2) r := by
    refine ⟨by rw [hanswers]; rfl, by simp [hanswers], ?_⟩
    rw [UniqueKey.rows, hrows]
    rfl
  have hiff := (unique_creation_iff credentials same (by simp [twoAdmins]) ready hr
    (by simp [hanswers])).1 rfl
  exact ⟨r, hr, hanswers, hiff.1.mp clean⟩

/-- Both check before either inserts, and the second INSERT is a server error. -/
theorem designation_not_clean :
    ¬ ∀ (env : Credentials) (key : UniqueKey) (requests : List CreationRequest) (store : Store)
      (moves : List ℕ) (r : CreationRace), (∀ q ∈ requests, q.key env = key) → requests ≠ [] →
      Ready key store → key.rows store = 0 →
      execute step (start env requests store) moves = some r → none ∉ r.answers → Clean key r := by
  intro h
  have hrun : (execute step (start credentials twoAdmins agency) [0, 1, 0, 1]).map (·.answers) =
      some [some 201, some 500] := rfl
  obtain ⟨r, hr, hanswers⟩ := Option.map_eq_some_iff.mp hrun
  have clean := h credentials _ twoAdmins agency _ r same (by simp [twoAdmins]) ready rfl hr
    (by simp [hanswers])
  simpa [hanswers] using clean.2.1

end CreationRace

end Docsage
