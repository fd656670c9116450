import Docsage.Auth.Sessions

/-! # What a logout revokes

A step of the auth endpoints keeps or drops sessions, or adds one under a token
that nobody has seen. A token without a live session therefore stays without
one, and a logout revokes a token exactly when it deletes its row.
-/

namespace Docsage
open Relational Transition

structure SessionsStep (σ σ' : AuthState) : Prop where
  now : σ.store.now ≤ σ'.store.now
  seen : ∀ token ∈ σ.seen, token ∈ σ'.seen
  users : ∀ userId, (σ.store.user? userId).isSome → (σ'.store.user? userId).isSome
  sessions : σ'.store.sessions.Sublist σ.store.sessions ∨
    ∃ kept row, kept.Sublist σ.store.sessions ∧ σ'.store.sessions = kept ++ [row] ∧
      row.token ∉ σ.seen ∧ row.token ∈ σ'.seen ∧ (σ'.store.user? row.userId).isSome

variable {env : Credentials} {σ σ' : AuthState} {a : AuthAction} {token : String}

theorem user?_insertUser {s : Store} {user : User} {userId : Uuid}
    (h : (s.user? userId).isSome) : ((s.insertUser user).user? userId).isSome := by
  simp only [Store.user?, Store.insertUser, lookup, List.find?_append] at h ⊢
  simp [h]

theorem user?_insertUser_self (s : Store) (user : User) :
    ((s.insertUser user).user? user.id).isSome := by
  simp [Store.user?, Store.insertUser, lookup, List.find?_append]

theorem user?_of_mem {s : Store} {user : User} (h : user ∈ s.users) : (s.user? user.id).isSome := by
  rw [Option.isSome_iff_ne_none]
  exact fun hnone => lookup_none.mp hnone user h rfl

/-- A session is opened under a fresh token, for a user who exists. -/
theorem SessionsStep.open (hnow : σ.store.now ≤ σ'.store.now) {s : Store} {userId : Uuid}
    (hsessions : s.sessions = σ.store.sessions) (hstore : σ'.store = openSession s userId token)
    (husers : ∀ userId, (σ.store.user? userId).isSome → (s.user? userId).isSome)
    (huser : (s.user? userId).isSome) (fresh : token ∉ σ.seen) (hseen : σ'.seen = token :: σ.seen) :
    SessionsStep σ σ' := by
  have hmem (t : String) (ht : t ∈ token :: σ.seen) : t ∈ σ'.seen := by rwa [hseen]
  refine ⟨hnow, fun t ht => hmem t (List.mem_cons_of_mem _ ht), fun u hu => ?_,
    .inr ⟨(purgeExpiredSessions s).sessions, ⟨token, userId, s.now + sessionTtl⟩, ?_, ?_, fresh,
      hmem token List.mem_cons_self, ?_⟩⟩
  · rw [hstore]
    exact husers u hu
  · exact hsessions ▸ List.filter_sublist
  · rw [hstore]
    rfl
  · rw [hstore]
    exact huser

theorem SessionsStep.drop (hnow : σ.store.now ≤ σ'.store.now)
    (husers : σ'.store.users = σ.store.users)
    (hsessions : σ'.store.sessions.Sublist σ.store.sessions)
    (hseen : ∀ t ∈ σ.seen, t ∈ σ'.seen) : SessionsStep σ σ' :=
  ⟨hnow, hseen, fun u hu => by rwa [Store.user?, husers], .inl hsessions⟩

theorem logout_sublist (s : Store) (cookies : Cookies) :
    (logout s cookies).sessions.Sublist s.sessions ∧ (logout s cookies).users = s.users ∧
      (logout s cookies).now = s.now := by
  unfold logout
  split
  · exact ⟨List.Sublist.refl _, rfl, rfl⟩
  · split
    · exact ⟨List.Sublist.refl _, rfl, rfl⟩
    · exact ⟨List.filter_sublist, rfl, rfl⟩

theorem AuthState.step_sessions (h : σ.step env a = some σ') : SessionsStep σ σ' := by
  cases a with
  | tick elapsed =>
    obtain rfl := Option.some.inj h
    exact .drop (Int.le_add_of_nonneg_right (Int.natCast_nonneg _)) rfl (List.Sublist.refl _)
      fun _ h => h
  | register payload clientIp userId token =>
    obtain ⟨hfresh, h⟩ := Option.ite_none_left_eq_some.mp h
    push Not at hfresh
    obtain rfl := Option.some.inj h
    unfold register
    simp only
    split
    · exact .drop le_rfl rfl (List.Sublist.refl _) fun _ h => List.mem_cons_of_mem _ h
    split
    · exact .drop le_rfl rfl (List.Sublist.refl _) fun _ h => List.mem_cons_of_mem _ h
    · exact .open (s := σ.store.insertUser _) le_rfl rfl rfl (fun _ => user?_insertUser)
        (user?_insertUser_self _ _) hfresh.1 rfl
  | login payload clientIp token =>
    obtain ⟨hfresh, h⟩ := Option.ite_none_left_eq_some.mp h
    obtain rfl := Option.some.inj h
    unfold login
    simp only
    split
    · exact .drop le_rfl rfl (List.Sublist.refl _) fun _ h => List.mem_cons_of_mem _ h
    split
    · exact .drop le_rfl rfl (List.Sublist.refl _) fun _ h => List.mem_cons_of_mem _ h
    next user huser =>
    split
    · exact .open le_rfl rfl rfl (fun _ h => h) (user?_of_mem (List.mem_of_find?_eq_some huser))
        hfresh rfl
    · exact .drop le_rfl rfl (List.Sublist.refl _) fun _ h => List.mem_cons_of_mem _ h
  | logout cookies =>
    obtain rfl := Option.some.inj h
    obtain ⟨hsub, husers, hnow⟩ := logout_sublist σ.store cookies
    exact .drop hnow.ge husers hsub fun _ h => List.mem_append_right _ h
  | request cookies =>
    obtain rfl := Option.some.inj h
    exact .drop le_rfl rfl (List.Sublist.refl _) fun _ h => List.mem_append_right _ h
  | restart =>
    obtain rfl := Option.some.inj h
    exact .drop le_rfl rfl List.filter_sublist fun _ h => h

/-- The sessions table: every token was seen and is unique, and every user is there. -/
structure AuthState.Sound (σ : AuthState) : Prop where
  seen : ∀ row ∈ σ.store.sessions, row.token ∈ σ.seen
  unique : (σ.store.sessions.map (·.token)).Nodup
  owned : ∀ row ∈ σ.store.sessions, (σ.store.user? row.userId).isSome

/-- The token was seen, and it has no live session. -/
def AuthState.Revoked (σ : AuthState) (token : String) : Prop :=
  token ∈ σ.seen ∧
    (token ≠ "" → ∀ row ∈ σ.store.sessions, row.token = token → row.expiresAt ≤ σ.store.now)

theorem AuthState.Sound.kept (sound : σ.Sound) (taken : SessionsStep σ σ') : σ'.Sound := by
  rcases taken.sessions with hsub | ⟨kept, row, hsub, heq, hfresh, hseen, huser⟩
  · exact ⟨fun r hr => taken.seen _ (sound.seen r (hsub.subset hr)),
      sound.unique.sublist (hsub.map _), fun r hr => taken.users _ (sound.owned r (hsub.subset hr))⟩
  · refine ⟨fun r hr => ?_, ?_, fun r hr => ?_⟩
    · rw [heq] at hr
      rcases List.mem_append.mp hr with hr | hr
      · exact taken.seen _ (sound.seen r (hsub.subset hr))
      · rwa [List.mem_singleton.mp hr]
    · rw [heq, List.map_append, List.nodup_append]
      refine ⟨sound.unique.sublist (hsub.map _), List.nodup_singleton _, fun t ht u hu => ?_⟩
      obtain ⟨r, hr, rfl⟩ := List.mem_map.mp ht
      rw [List.map_singleton, List.mem_singleton] at hu
      rintro rfl
      exact hfresh (hu ▸ sound.seen r (hsub.subset hr))
    · rw [heq] at hr
      rcases List.mem_append.mp hr with hr | hr
      · exact taken.users _ (sound.owned r (hsub.subset hr))
      · rwa [List.mem_singleton.mp hr]

theorem AuthState.Sound.step (sound : σ.Sound) (h : σ.step env a = some σ') : σ'.Sound :=
  sound.kept (AuthState.step_sessions h)

theorem AuthState.Revoked.kept (revoked : σ.Revoked token) (taken : SessionsStep σ σ') :
    σ'.Revoked token := by
  refine ⟨taken.seen _ revoked.1, fun hne row hrow htoken => ?_⟩
  have hold (hr : row ∈ σ.store.sessions) : row.expiresAt ≤ σ'.store.now :=
    (revoked.2 hne row hr htoken).trans taken.now
  rcases taken.sessions with hsub | ⟨kept, new, hsub, heq, hfresh, -, -⟩
  · exact hold (hsub.subset hrow)
  · rw [heq] at hrow
    rcases List.mem_append.mp hrow with hrow | hrow
    · exact hold (hsub.subset hrow)
    · -- the new session cannot be for a token that was seen
      rw [← htoken, List.mem_singleton.mp hrow] at revoked
      exact absurd revoked.1 hfresh

theorem AuthState.Revoked.step (revoked : σ.Revoked token) (h : σ.step env a = some σ') :
    σ'.Revoked token :=
  revoked.kept (AuthState.step_sessions h)

def Unauthenticated (s : Store) (cookies : Cookies) : Prop :=
  getCurrentUser s cookies = .error notAuthenticated

theorem unauthenticated_iff (sound : σ.Sound) {cookies : Cookies}
    (carries : cookies.lookup sessionCookie = some token) :
    Unauthenticated σ.store cookies ↔
      (token ≠ "" → ∀ row ∈ σ.store.sessions, row.token = token → row.expiresAt ≤ σ.store.now) := by
  rw [Unauthenticated, getCurrentUser, carries, orRefuse_bind_some rfl]
  by_cases hempty : token = ""
  · exact iff_of_true (refuse_bind_of hempty) fun h => absurd hempty h
  rw [refuse_bind_of_not hempty]
  cases hrow : σ.store.session? token with
  | none => exact iff_of_true rfl fun _ row hr ht => absurd ht (lookup_none.mp hrow row hr)
  | some row =>
    rw [orRefuse_bind_some rfl]
    obtain ⟨hmem, htoken⟩ := lookup_some hrow
    by_cases hexpired : row.expiresAt ≤ σ.store.now
    · refine iff_of_true (refuse_bind_of hexpired) fun _ other hother ht => ?_
      rwa [List.inj_on_of_nodup_map sound.unique hother hmem (ht.trans htoken.symm)]
    · refine iff_of_false ?_ fun h => hexpired (h hempty row hmem htoken)
      obtain ⟨user, huser⟩ := Option.isSome_iff_exists.mp (sound.owned row hmem)
      rw [refuse_bind_of_not hexpired, huser]
      exact fun h => by cases h

structure AuthState.Initial (σ : AuthState) : Prop where
  sessions : σ.store.sessions = []

theorem AuthState.Initial.sound (initial : σ.Initial) : σ.Sound := by
  constructor <;> simp [initial.sessions]

def anyAuthAction : AuthState → AuthAction → Prop := fun _ _ => True

theorem mem_of_lookup {cookies : Cookies} {name value : String}
    (h : cookies.lookup name = some value) : value ∈ cookies.map (·.2) := by
  induction cookies with
  | nil => cases h
  | cons c cookies ih =>
    obtain ⟨n, v⟩ := c
    rw [List.lookup_cons] at h
    split at h
    · rw [Option.some.inj h]
      exact List.mem_cons_self
    · exact List.mem_cons_of_mem _ (ih h)

theorem logout_removes {s : Store} {cookies : Cookies} (h : cookies.lookup "token" = some token) :
    ∀ row ∈ (logout s cookies).sessions, row.token ≠ token := by
  intro row hrow
  rw [logout, h] at hrow
  simp only at hrow
  split at hrow
  · next hnone => exact lookup_none.mp hnone row hrow
  · next found hfound =>
    rw [← (lookup_some hfound).2]
    exact (mem_delete.mp hrow).2

theorem mem_logout_of_ne {s : Store} {cookies : Cookies} {row : Session}
    (h : cookies.lookup "token" ≠ some row.token) :
    row ∈ (logout s cookies).sessions ↔ row ∈ s.sessions := by
  unfold logout
  split
  · exact Iff.rfl
  next t ht =>
  split
  · exact Iff.rfl
  next found hfound =>
    have hne : row.token ≠ found.token := by
      rw [(lookup_some hfound).2]
      rintro rfl
      exact h ht
    simp [Store.deleteSession, hne]

/-- After the logout the token of the session cookie is never accepted again. -/
def RevokedForever (env : Credentials) (σ : AuthState) (cookies : Cookies) (token : String) :
    Prop :=
  ∀ σ₁ σ', σ.step env (.logout cookies) = some σ₁ → Run (AuthState.step env) anyAuthAction σ₁ σ' →
    ∀ request : Cookies, request.lookup sessionCookie = some token →
      Unauthenticated σ'.store request

/-- A logout revokes the token of its session cookie exactly when the request also carries it in
a cookie named `token`, or the token was not accepted any more. -/
theorem logout_revokes_iff {σ₀ : AuthState} (initial : σ₀.Initial)
    (run : Run (AuthState.step env) anyAuthAction σ₀ σ) {cookies : Cookies}
    (carries : cookies.lookup sessionCookie = some token) :
    RevokedForever env σ cookies token ↔
      cookies.lookup "token" = some token ∨ Unauthenticated σ.store cookies := by
  have sound : σ.Sound := run.invariant initial.sound fun _ _ _ sound _ taken => sound.step taken
  have hseen : token ∈ cookies.map (·.2) ++ σ.seen := List.mem_append_left _ (mem_of_lookup carries)
  set σ₁ : AuthState := { σ.sees cookies with store := logout σ.store cookies } with hσ₁
  have taken : σ.step env (.logout cookies) = some σ₁ := rfl
  have hgone : Unauthenticated σ₁.store cookies ↔
      cookies.lookup "token" = some token ∨ Unauthenticated σ.store cookies := by
    rw [unauthenticated_iff (sound.step taken) carries, unauthenticated_iff sound carries]
    change (token ≠ "" → ∀ row ∈ (logout σ.store cookies).sessions, row.token = token →
      row.expiresAt ≤ (logout σ.store cookies).now) ↔ _
    rw [(logout_sublist σ.store cookies).2.2]
    by_cases hcookie : cookies.lookup "token" = some token
    · refine iff_of_true (fun _ row hrow htoken => ?_) (.inl hcookie)
      exact absurd htoken (logout_removes hcookie row hrow)
    · rw [or_iff_right hcookie]
      have hkept (row : Session) (htoken : row.token = token) :
          row ∈ (logout σ.store cookies).sessions ↔ row ∈ σ.store.sessions :=
        mem_logout_of_ne (by rwa [htoken])
      exact forall_congr' fun _ => ⟨fun h row hrow ht => h row ((hkept row ht).mpr hrow) ht,
        fun h row hrow ht => h row ((hkept row ht).mp hrow) ht⟩
  rw [← hgone]
  refine ⟨fun h => h σ₁ σ₁ taken (.refl _) cookies carries,
    fun h σ₂ σ' htaken hrun request hrequest => ?_⟩
  obtain rfl := Option.some.inj (taken.symm.trans htaken)
  have sound₁ : σ₁.Sound := sound.step taken
  have revoked : σ₁.Revoked token := ⟨hseen, (unauthenticated_iff sound₁ carries).mp h⟩
  have revoked' : σ'.Revoked token :=
    hrun.invariant (I := (·.Revoked token)) revoked fun _ _ _ revoked _ taken => revoked.step taken
  have sound' : σ'.Sound := hrun.invariant sound₁ fun _ _ _ sound _ taken => sound.step taken
  exact (unauthenticated_iff sound' hrequest).mpr revoked'.2

namespace Browser

/-! A browser registers, and sends the session cookie back as it got it. -/

def plain : Credentials where
  lower := id
  hashPassword := id
  verifyPassword password hash := password = hash

def start : AuthState := { store := { now := 0 } }

def signUp : AuthAction :=
  .register ⟨"bye@example.com", "correct-horse", "Bye"⟩ "127.0.0.1" 1 "k3Jx"

def cookies : Cookies := [(sessionCookie, "k3Jx")]

theorem start_initial : start.Initial := ⟨rfl⟩

theorem signedUp : ∃ σ, execute (AuthState.step plain) start [signUp] = some σ ∧
    ¬ Unauthenticated (logout σ.store cookies) cookies := by
  refine ⟨_, rfl, ?_⟩
  unfold Unauthenticated
  decide

end Browser

theorem logout_revokes_iff_signedUp : ∃ σ,
    execute (AuthState.step Browser.plain) Browser.start [Browser.signUp] = some σ ∧
    (RevokedForever Browser.plain σ Browser.cookies "k3Jx" ↔
      Browser.cookies.lookup "token" = some "k3Jx" ∨ Unauthenticated σ.store Browser.cookies) := by
  obtain ⟨σ, hσ, -⟩ := Browser.signedUp
  exact ⟨σ, hσ, logout_revokes_iff Browser.start_initial (.of_execute (obeys_true _ _) hσ) rfl⟩

/-- The browser's logout deletes nothing: the token is still accepted afterwards. -/
theorem logout_keeps_session :
    ¬ ∀ (env : Credentials) (σ₀ σ : AuthState) (cookies : Cookies) (token : String), σ₀.Initial →
      Run (AuthState.step env) anyAuthAction σ₀ σ → cookies.lookup sessionCookie = some token →
      RevokedForever env σ cookies token := by
  intro h
  obtain ⟨σ, hσ, haccepted⟩ := Browser.signedUp
  exact haccepted (h Browser.plain _ σ Browser.cookies "k3Jx" Browser.start_initial
    (.of_execute (obeys_true _ _) hσ) rfl _ _ rfl (.refl _) Browser.cookies rfl)

end Docsage
