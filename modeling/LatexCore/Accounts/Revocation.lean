import LatexCore.Accounts.Sessions
import LatexCore.Foundation.Runs
import LatexCore.Mail.Secrets

/-! # What a replaced credential gave

A login inserts its session without another look at the account, a password
change looks at the account alone, and a letter carries the password it was
queued with. A commit that falls between the check and its use is not noticed:
the runs without such commits revoke what they replace.
-/
namespace LatexCore.Accounts
open Core Foundation
open Institution (Account PasswordHasher temporaryPassword)

variable (settings : Settings)

/-- What a step owes to the accounts whose credentials were replaced. -/
structure RevocationStep (w : World) (label : Label) : Prop where
  changed : ∀ request, label = .commitChange request → ∀ cookies digest principal hash,
    w.requests request = .changing cookies digest principal hash true → (w.step settings label).db = w.db
  handed : ∀ worker limit locked, label = .mail (.claimBatch worker limit locked) → ∀ claims,
    (Mail.claimBatch settings.config limit locked w.mail.db).2 = .ok claims → ∀ claim ∈ claims, ∀ user,
      claim.accountUserId = some user → 0 < w.revocations user →
        ∃ account, w.db.credentials.get? user = some account ∧
          settings.hasher.verifyPassword claim.temporaryPassword account.passwordHash = some true

/-- After a reset, a password change or a disabling no session of an earlier login is valid, no request of
a revoked session changes the password, and no letter hands out another password than that of its account. -/
structure RevocationContract (w : World) (ops : List Label) : Prop where
  steps : Along (World.step settings) (RevocationStep settings) w ops
  sessions : ∀ pre post, ops = pre ++ post → ∀ digest row seen,
    (run (World.step settings) w pre).db.sessions.get? digest = some row →
    (run (World.step settings) w pre).logins digest = some seen →
    (session (run (World.step settings) w pre).now digest (run (World.step settings) w pre).db).isSome = true →
      (run (World.step settings) w pre).revocations row.userId = seen

/-- No account is revoked between the check of a login and its session, no account whose change is under
way has its session revoked and must still change its password, and no claim selects a letter queued
with another password than that of its account. -/
def World.undisturbed (w : World) : Label → Prop
  | .rotate request _ => ∀ user seen, w.requests request = .rotating user [] (some seen) →
    w.revocations user = seen ∨
      ∀ account, w.db.credentials.get? user = some account → account.enabled = false
  | .commitChange request => ∀ cookies digest principal hash,
    w.requests request = .changing cookies digest principal hash true →
      ∀ account, w.db.credentials.get? principal.userId = some account → account.mustChangePassword = false
  | .mail (.claimBatch _ limit locked) => ∀ id ∈ Mail.candidates limit locked w.mail.db, ∀ row user,
    w.mail.db.outbox.get? id = some row → row.accountUserId = some user → 0 < w.revocations user →
      w.current id = true
  | _ => True

/-! ## Calls of the repository -/

variable {settings} {w w' : World} {label : Label} {db db' : Db} {user : UserId}

theorem get?_updateAccount {f : Account → Account} {hf : ∀ account, (f account).email = account.email}
    (x : UserId) : (updateAccount user f hf db).credentials.get? x =
      if x = user then (db.credentials.get? x).map f else db.credentials.get? x := by
  rw [updateAccount,Indexed.get?_updateWhere]
  by_cases hx : x = user
  · simp [hx]
  · simp [hx]

theorem deleteSessions_credentials : (deleteSessions user db).credentials = db.credentials := rfl

theorem get?_deleteSessions {digest : Digest} {row : Session}
    (h : (deleteSessions user db).sessions.get? digest = some row) :
    db.sessions.get? digest = some row ∧ row.userId ≠ user := by
  rw [deleteSessions,Table.get?_deleteWhere,Option.filter_eq_some_iff] at h
  exact ⟨h.1,by simpa using h.2⟩

theorem createSession_ok {now : Timestamp} {digest : Digest} {expiresSeconds : ℕ}
    (h : createSession now digest user expiresSeconds db = .ok db') :
    db'.credentials = db.credentials ∧ ∀ key, db'.sessions.get? key =
      if key = digest then some ⟨user,now + expiresSeconds * 1000⟩ else db.sessions.get? key := by
  simp only [createSession,bind_ok,require_ok,pure_ok] at h
  obtain ⟨sessions,hsessions,rfl⟩ := h
  exact ⟨rfl,Table.get?_insert? hsessions⟩

theorem setUserEnabled_ok {email : String} {enabled : Bool} (h : setUserEnabled email enabled db = .ok db') :
    ∃ account, userByEmail email db = some account ∧ db' = deleteSessions account.1
      (updateAccount account.1 (Account.enable enabled) (Account.enable_email enabled) db) := by
  simp only [setUserEnabled,bind_ok,require_ok,pure_ok] at h
  obtain ⟨account,haccount,rfl⟩ := h
  exact ⟨account,haccount,rfl⟩

theorem resetPassword_ok {email hash : String} (h : resetPassword email hash db = .ok db') :
    ∃ account, userByEmail email db = some account ∧ db' = replacePassword account.1 hash true db := by
  simp only [resetPassword,bind_ok,require_ok,ensure_ok,pure_ok] at h
  obtain ⟨account,haccount,-,-,rfl⟩ := h
  exact ⟨account,haccount,rfl⟩

theorem completePasswordChange_ok {hash : String} (h : completePasswordChange user hash db = .ok db') :
    ∃ account, db.credentials.get? user = some account ∧ account.mustChangePassword = true ∧
      db' = replacePassword user hash false db := by
  simp only [completePasswordChange,bind_ok,require_ok,ensure_ok,pure_ok] at h
  obtain ⟨account,haccount,-,hmust,-,-,rfl⟩ := h
  exact ⟨account,haccount,hmust,rfl⟩

theorem resetV2TemporaryPasswordInner_ok {config : Mail.MailOutboxConfig} {started : Timestamp} {id : Uuid}
    {nonce : Mail.Nonce} {actor : UserId} {hash email : String} {password : Option String}
    {mail mail' : Mail.Db} {queued : Bool}
    (h : resetV2TemporaryPasswordInner config started id nonce actor user hash password db mail =
      .ok (db',mail',email,queued)) :
    db' = replacePassword user hash true db ∧ ∃ account, db.credentials.get? user = some account ∧
      (mail' = mail ∧ queued = false ∨ queued = true ∧ ∃ plain role new, password = some plain ∧
        Mail.enqueueTemporaryCredential config started id nonce actor user account.email role plain mail =
          .ok (mail',new)) := by
  simp only [resetV2TemporaryPasswordInner,bind_ok,require_ok,ensure_ok] at h
  obtain ⟨account,haccount,role,-,-,-,h⟩ := h
  cases password with
  | none =>
    cases h
    exact ⟨rfl,account,haccount,Or.inl ⟨rfl,rfl⟩⟩
  | some plain =>
    simp only [bind_ok,mapError_ok,pure_ok] at h
    obtain ⟨⟨letters,new⟩,henqueue,h⟩ := h
    cases h
    exact ⟨rfl,account,haccount,Or.inr ⟨rfl,plain,role,new,rfl,henqueue⟩⟩

/-! ## Letters -/

theorem holdsPassword_iff {id : Uuid} {row : Mail.EmailRow} : holdsPassword settings db id row = true ↔
    ∃ secret password owner account, row.secret = some secret ∧
      settings.config.cipher.decrypt id row.recipientEmail row.credentialRole secret = .ok password ∧
      row.accountUserId = some owner ∧ db.credentials.get? owner = some account ∧
      settings.hasher.verifyPassword password account.passwordHash = some true := by
  constructor
  · intro h
    unfold holdsPassword at h
    split at h
    · next claim account hclaim haccount =>
      simp only [Mail.decodeClaim,bind_ok,require_ok,pure_ok] at hclaim
      obtain ⟨secret,hsecret,password,hpassword,rfl⟩ := hclaim
      obtain ⟨owner,howner,haccount⟩ := Option.bind_eq_some_iff.mp haccount
      exact ⟨secret,password,owner,account,hsecret,hpassword,howner,haccount,by simpa using h⟩
    · cases h
  · rintro ⟨secret,password,owner,account,hsecret,hpassword,howner,haccount,hverify⟩
    have hclaim : Mail.decodeClaim settings.config id row =
        .ok ⟨id,row.recipientEmail,row.accountUserId,row.credentialRole,password,row.attempts⟩ := by
      simp only [Mail.decodeClaim,bind_ok,require_ok,pure_ok]
      exact ⟨secret,hsecret,password,hpassword,rfl⟩
    rw [holdsPassword,hclaim,howner,Option.bind_some,haccount]
    simpa using hverify

theorem holdsPassword_mono {id : Uuid} {row row' : Mail.EmailRow} (h : holdsPassword settings db id row = true)
    (hrecipient : row'.recipientEmail = row.recipientEmail) (hrole : row'.credentialRole = row.credentialRole)
    (hsecret : row'.secret = row.secret) (howner : row'.accountUserId = row.accountUserId)
    (hhash : ∀ owner account, row.accountUserId = some owner → db.credentials.get? owner = some account →
      ∃ account', db'.credentials.get? owner = some account' ∧ account'.passwordHash = account.passwordHash) :
    holdsPassword settings db' id row' = true := by
  obtain ⟨secret,password,owner,account,hs,hpassword,ho,haccount,hverify⟩ := holdsPassword_iff.mp h
  obtain ⟨account',haccount',hsame⟩ := hhash owner account ho haccount
  refine holdsPassword_iff.mpr ⟨secret,password,owner,account',hsecret.trans hs,?_,howner.trans ho,haccount',?_⟩
  · rw [hrecipient,hrole]
    exact hpassword
  · rw [hsame]
    exact hverify

/-! ## Invariants -/

/-- A session whose login has read an older count is of a disabled account. -/
def World.SessionsKept (w : World) : Prop := ∀ digest row seen, w.db.sessions.get? digest = some row →
  w.logins digest = some seen → w.revocations row.userId = seen ∨
    ∀ account, w.db.credentials.get? row.userId = some account → account.enabled = false

def World.LettersKept (settings : Settings) (w : World) : Prop := ∀ id row, w.mail.db.outbox.get? id = some row →
  w.current id = true → row.secret.isSome = true → holdsPassword settings w.db id row = true

theorem sessionsKept_start (settings : Settings) (db : Db) (mail : Mail.World) :
    (World.start settings db mail).SessionsKept := by
  intro digest row seen _ hlogin
  cases hlogin
  exact Or.inl rfl

theorem lettersKept_start (settings : Settings) (db : Db) (mail : Mail.World) :
    (World.start settings db mail).LettersKept settings := by
  intro id row hrow hcurrent _
  change (mail.db.outbox.get? id).any (holdsPassword settings db id) = true at hcurrent
  change mail.db.outbox.get? id = some row at hrow
  rw [hrow,Option.any_some] at hcurrent
  exact hcurrent

theorem World.SessionsKept.deleted (h : w.SessionsKept) {f : Account → Account}
    {hf : ∀ account, (f account).email = account.email}
    (hdb : w'.db = deleteSessions user (updateAccount user f hf w.db)) (hlogins : w'.logins = w.logins)
    (hrevocations : ∀ other, other ≠ user → w'.revocations other = w.revocations other) : w'.SessionsKept := by
  intro digest row seen hrow hlogin
  rw [hdb] at hrow ⊢
  rw [hlogins] at hlogin
  obtain ⟨hold,hother⟩ := get?_deleteSessions hrow
  rw [hrevocations row.userId hother]
  rcases h digest row seen hold hlogin with hseen | hdisabled
  · exact Or.inl hseen
  · refine Or.inr ?_
    intro account haccount
    change (updateAccount user f hf w.db).credentials.get? row.userId = some account at haccount
    rw [get?_updateAccount,if_neg hother] at haccount
    exact hdisabled account haccount

theorem World.LettersKept.replaced (h : w.LettersKept settings) {hash : String} {mustChange : Bool}
    (hdb : w'.db = replacePassword user hash mustChange w.db) {id : Uuid} {row : Mail.EmailRow}
    (hrow : w.mail.db.outbox.get? id = some row) (hcurrent : (w.outdate user).current id = true)
    (hsecret : row.secret.isSome = true) : holdsPassword settings w'.db id row = true := by
  simp only [World.outdate,hrow,Option.any_some,Bool.and_eq_true,Bool.not_eq_true',beq_eq_false_iff_ne] at hcurrent
  refine holdsPassword_mono (h id row hrow hcurrent.1 hsecret) rfl rfl rfl rfl ?_
  intro owner account howner haccount
  have hother : owner ≠ user := fun hsame => hcurrent.2 (by rw [howner,hsame])
  refine ⟨account,?_,rfl⟩
  rw [hdb,replacePassword,deleteSessions_credentials,get?_updateAccount,if_neg hother]
  exact haccount

theorem holdsPassword_queued (hlawful : settings.hasher.Verifies) (hopens : settings.config.cipher.Opens)
    {started now : Timestamp} {id : Uuid} {nonce : Mail.Nonce} {recipient plain hash : String}
    {role : Mail.CredentialRole} {secret : Mail.Secret} {salt : List UInt8} {account : Account}
    (haccount : db.credentials.get? user = some account)
    (hhash : settings.hasher.hashTemporaryPassword salt plain = some hash)
    (hsecret : settings.config.cipher.encrypt nonce id recipient role plain = .ok secret) :
    holdsPassword settings (replacePassword user hash true db) id
      (Mail.queuedRow settings.config started user recipient role secret now) = true := by
  refine holdsPassword_iff.mpr ⟨secret,plain,user,Account.replace hash true account,rfl,hopens.decrypt hsecret,rfl,?_,?_⟩
  · rw [replacePassword,deleteSessions_credentials,get?_updateAccount,if_pos rfl,haccount,Option.map_some]
  · refine hlawful salt plain hash ?_
    rw [PasswordHasher.hashTemporaryPassword] at hhash
    split at hhash
    · exact hhash
    · cases hhash

theorem World.LettersKept.mail (h : w.LettersKept settings) {label : Mail.Label}
    (hlabel : ∀ started id nonce actor user recipient role password,
      label ≠ .enqueue started id nonce actor user recipient role password) :
    World.LettersKept settings { w with mail := w.mail.step settings.config settings.maxAttempts label } := by
  intro id row' hrow' hcurrent hsecret'
  cases hrow : w.mail.db.outbox.get? id with
  | none =>
    obtain ⟨_,_,_,_,_,_,_,_,hnew,-⟩ := Mail.step_new hrow hrow'
    exact absurd hnew (hlabel _ _ _ _ _ _ _ _)
  | some row =>
    obtain ⟨row'',hrow'',hstep⟩ := Mail.step_row settings.config settings.maxAttempts label hrow
    have hsame : row'' = row' := Option.some.inj (hrow''.symm.trans hrow')
    subst hsame
    obtain ⟨hrecipient,hrole,-,hsecret⟩ := hstep.frame
    have howner : row''.accountUserId = row.accountUserId := by
      cases hstep <;> rfl
    rcases hsecret with hsecret | hnone
    · rw [hsecret] at hsecret'
      exact holdsPassword_mono (h id row hrow hcurrent hsecret') hrecipient hrole hsecret howner
        (fun _ account _ haccount => ⟨account,haccount,rfl⟩)
    · rw [hnone] at hsecret'
      cases hsecret'

theorem World.LettersKept.enabled (h : w.LettersKept settings) {enabled : Bool}
    (hdb : w'.db = deleteSessions user (updateAccount user (Account.enable enabled) (Account.enable_email enabled) w.db))
    (hmail : w'.mail = w.mail) (hcurrent : w'.current = w.current) : w'.LettersKept settings := by
  intro id row hrow hnow hsecret
  rw [hmail] at hrow
  rw [hcurrent] at hnow
  refine holdsPassword_mono (h id row hrow hnow hsecret) rfl rfl rfl rfl ?_
  intro owner account _ haccount
  rw [hdb,deleteSessions_credentials,get?_updateAccount]
  split
  · exact ⟨Account.enable enabled account,by rw [haccount,Option.map_some],rfl⟩
  · exact ⟨account,haccount,rfl⟩

/-! ## Steps -/

theorem World.SessionsKept.rotate (h : w.SessionsKept) {request : ℕ} {token : Digest}
    (hlabel : w.undisturbed (.rotate request token)) : (w.rotate settings request token).SessionsKept := by
  rw [World.rotate]
  split
  · next user cookie cookies login hrequest =>
    intro digest row seen hrow hlogin
    refine h digest row seen ?_ hlogin
    change (deleteSession cookie w.db).sessions.get? digest = some row at hrow
    rw [deleteSession,Table.get?_deleteWhere,Option.filter_eq_some_iff] at hrow
    exact hrow.1
  · next user login hrequest =>
    split
    · exact h
    · next db hcreated =>
      obtain ⟨hcredentials,hsessions⟩ := createSession_ok hcreated
      intro digest row seen hrow hlogin
      change db.sessions.get? digest = some row at hrow
      change Function.update w.logins token login digest = some seen at hlogin
      change _ = seen ∨ ∀ account, db.credentials.get? row.userId = some account → _
      rw [hsessions] at hrow
      rw [hcredentials]
      by_cases hdigest : digest = token
      · rw [if_pos hdigest,Option.some.injEq] at hrow
        rw [hdigest,Function.update_self] at hlogin
        subst hrow hlogin
        exact hlabel user seen hrequest
      · rw [if_neg hdigest] at hrow
        rw [Function.update_of_ne hdigest] at hlogin
        exact h digest row seen hrow hlogin
  · exact h

theorem rotate_frame (settings : Settings) (w : World) (request : ℕ) (token : Digest) :
    (w.rotate settings request token).db.credentials = w.db.credentials ∧
      (w.rotate settings request token).mail = w.mail ∧
      (w.rotate settings request token).current = w.current := by
  rw [World.rotate]
  split
  · exact ⟨rfl,rfl,rfl⟩
  · split
    · exact ⟨rfl,rfl,rfl⟩
    · next db hcreated => exact ⟨(createSession_ok hcreated).1,rfl,rfl⟩
  · exact ⟨rfl,rfl,rfl⟩

/-- What every undisturbed run keeps. -/
structure Revoked (settings : Settings) (w : World) : Prop where
  sessions : w.SessionsKept
  letters : w.LettersKept settings

theorem Revoked.replaced (h : Revoked settings w) {hash : String} {mustChange : Bool} :
    Revoked settings ((w.outdate user).revoke user (replacePassword user hash mustChange w.db)) := by
  refine ⟨?_,?_⟩
  · exact h.sessions.deleted rfl rfl (fun other hother => Function.update_of_ne hother ..)
  · intro id row hrow hcurrent hsecret
    exact h.letters.replaced rfl hrow hcurrent hsecret

theorem Revoked.resetTemporary (h : Revoked settings w) (hlawful : settings.hasher.Verifies)
    (hopens : settings.config.cipher.Opens) (actor user : UserId) (draw : ℕ → ℕ) (salt : List UInt8)
    (enqueue : Bool) (started : Timestamp) (id : Uuid) (nonce : Mail.Nonce) :
    Revoked settings (w.resetTemporary settings actor user draw salt enqueue started id nonce) := by
  rw [World.resetTemporary]
  dsimp only
  split
  · exact h
  · next hash hhash =>
    split
    · exact h
    · next db mail email queued hreset =>
      obtain ⟨rfl,account,haccount,hmail⟩ := resetV2TemporaryPasswordInner_ok hreset
      rcases hmail with ⟨rfl,rfl⟩ | ⟨rfl,plain,role,new,hplain,henqueue⟩
      · exact h.replaced
      · rw [if_pos rfl]
        refine ⟨h.replaced.sessions,?_⟩
        obtain ⟨hnew,-,secret,hsecret,hget,-⟩ := Mail.enqueue_ok henqueue
        intro key row hrow hcurrent hkept
        change mail.outbox.get? key = some row at hrow
        rw [hget] at hrow
        by_cases hkey : key = id
        · subst hkey
          rw [if_pos rfl,Option.some.injEq] at hrow
          subst hrow
          have hsame : plain = temporaryPassword draw := by
            split at hplain
            · exact (Option.some.inj hplain).symm
            · cases hplain
          rw [hsame] at hsecret
          exact holdsPassword_queued hlawful hopens haccount hhash hsecret
        · rw [if_neg hkey] at hrow
          change Function.update (w.outdate user).current id true key = true at hcurrent
          rw [Function.update_of_ne hkey] at hcurrent
          exact h.letters.replaced rfl hrow hcurrent hkept

theorem Revoked.step (h : Revoked settings w) (hlawful : settings.hasher.Verifies)
    (hopens : settings.config.cipher.Opens) (hlabel : w.undisturbed label) :
    Revoked settings (w.step settings label) := by
  cases label with
  | login request email password cookies => exact ⟨h.sessions,h.letters⟩
  | verify request => exact ⟨h.sessions,h.letters⟩
  | changePassword request cookies newPassword confirmPassword salt => exact ⟨h.sessions,h.letters⟩
  | commitChange request =>
    rw [World.step,World.commitChange]
    split
    · next cookies digest principal hash revoked hrequest =>
      split
      · exact ⟨h.sessions,h.letters⟩
      · exact ⟨h.sessions,h.letters⟩
      · next db hchanged =>
        obtain ⟨account,-,-,rfl⟩ := completePasswordChange_ok hchanged
        have hreplaced := @Revoked.replaced settings w principal.userId h hash false
        exact ⟨hreplaced.sessions,hreplaced.letters⟩
    · exact h
  | rotate request token =>
    obtain ⟨hcredentials,hmail,hcurrent⟩ := rotate_frame settings w request token
    refine ⟨h.sessions.rotate hlabel,?_⟩
    intro id row hrow hnow hsecret
    rw [World.step,hmail] at hrow
    rw [World.step,hcurrent] at hnow
    refine holdsPassword_mono (h.letters id row hrow hnow hsecret) rfl rfl rfl rfl ?_
    intro owner account _ haccount
    rw [World.step,hcredentials]
    exact ⟨account,haccount,rfl⟩
  | resetPassword email hash =>
    rw [World.step]
    split
    · next account db haccount hreset =>
      obtain ⟨found,hfound,rfl⟩ := resetPassword_ok hreset
      rw [haccount,Option.some.injEq] at hfound
      subst hfound
      exact h.replaced
    · exact h
  | resetTemporary actor user draw salt enqueue started id nonce =>
    exact h.resetTemporary hlawful hopens actor user draw salt enqueue started id nonce
  | setUserEnabled email enabled =>
    rw [World.step]
    split
    · next account db haccount henabled =>
      obtain ⟨found,hfound,rfl⟩ := setUserEnabled_ok henabled
      rw [haccount,Option.some.injEq] at hfound
      subst hfound
      split
      · exact ⟨h.sessions.deleted rfl rfl (fun _ _ => rfl),h.letters.enabled rfl rfl rfl⟩
      · exact ⟨h.sessions.deleted rfl rfl (fun other hother => Function.update_of_ne hother ..),
          h.letters.enabled rfl rfl rfl⟩
    · exact h
  | mail label =>
    cases label with
    | enqueue => exact h
    | _ => exact ⟨h.sessions,h.letters.mail (by simp)⟩

theorem Revoked.revocationStep (h : Revoked settings w) (hlabel : w.undisturbed label) :
    RevocationStep settings w label := by
  refine ⟨?_,?_⟩
  · rintro request rfl cookies digest principal hash hrequest
    have hmust := hlabel cookies digest principal hash hrequest
    rw [World.step,World.commitChange,hrequest]
    dsimp only
    split
    · rfl
    · rfl
    · next db hchanged =>
      obtain ⟨account,haccount,htrue,-⟩ := completePasswordChange_ok hchanged
      rw [hmust account haccount] at htrue
      cases htrue
  · rintro worker limit locked rfl claims hclaims claim hclaim owner howner hrevoked
    obtain ⟨id,row',hid,hrow',hdecode⟩ := Mail.mem_decodeClaims hclaims hclaim
    obtain ⟨row,hrow,hdue⟩ := Mail.mem_candidates hid
    have hclaimed := @Mail.get?_updated id row w.mail.db.outbox
      (fun id _ => (Mail.candidates limit locked w.mail.db).contains id) (Mail.EmailRow.claim w.mail.db.now) hrow
    rw [if_pos (List.contains_iff_mem.mpr hid)] at hclaimed
    have hsame : row' = row.claim w.mail.db.now := Option.some.inj (hrow'.symm.trans hclaimed)
    subst hsame
    simp only [Mail.decodeClaim,bind_ok,require_ok,pure_ok] at hdecode
    obtain ⟨secret,hsecret,password,hpassword,rfl⟩ := hdecode
    have hcurrent := hlabel id hid row owner hrow howner hrevoked
    simp only [Mail.EmailRow.due,Bool.and_eq_true] at hdue
    obtain ⟨secret',password',owner',account,hsecret',hpassword',howner',haccount,hverify⟩ :=
      holdsPassword_iff.mp (h.letters id row hrow hcurrent hdue.2)
    change row.secret = some secret at hsecret
    change row.accountUserId = some owner at howner
    change settings.config.cipher.decrypt id row.recipientEmail row.credentialRole secret = .ok password at hpassword
    rw [hsecret,Option.some.injEq] at hsecret'
    rw [howner,Option.some.injEq] at howner'
    subst hsecret' howner'
    rw [hpassword,Except.ok.injEq] at hpassword'
    subst hpassword'
    exact ⟨account,haccount,hverify⟩

theorem session_enabled {now : Timestamp} {digest : Digest} {row : Session}
    (hrow : db.sessions.get? digest = some row) (h : (session now digest db).isSome = true) :
    ∃ account, db.credentials.get? row.userId = some account ∧ account.enabled = true := by
  rw [session,hrow] at h
  change (Option.bind _ _).isSome = true at h
  rw [Option.bind_some] at h
  cases haccount : db.credentials.get? row.userId with
  | none =>
    rw [haccount] at h
    cases h
  | some account =>
    rw [haccount] at h
    change (if _ then _ else _ : Option AppSessionRecord).isSome = true at h
    split at h
    · next hvalid =>
      rw [Bool.and_eq_true] at hvalid
      exact ⟨account,rfl,hvalid.2⟩
    · cases h

/-- In the runs that nothing disturbs, a replaced credential gives nothing any more. -/
theorem replaced_credentials_revoked (settings : Settings) (hlawful : settings.hasher.Verifies)
    (hopens : settings.config.cipher.Opens) (db : Db) (mail : Mail.World) (ops : List Label)
    (h : Along (World.step settings) World.undisturbed (World.start settings db mail) ops) :
    RevocationContract settings (World.start settings db mail) ops := by
  have hstart : Revoked settings (World.start settings db mail) :=
    ⟨sessionsKept_start settings db mail,lettersKept_start settings db mail⟩
  have hstep : ∀ w label, Revoked settings w → w.undisturbed label → Revoked settings (w.step settings label) :=
    fun w label hw hlabel => hw.step hlawful hopens hlabel
  refine ⟨h.of_invariant (Revoked settings) hstep (fun w label hw hlabel => hw.revocationStep hlabel) hstart,?_⟩
  rintro pre post rfl digest row seen hrow hlogin hvalid
  have hrevoked := (along_append.mp h).1.invariant (Revoked settings) hstep hstart
  refine (hrevoked.sessions digest row seen hrow hlogin).resolve_right ?_
  intro hdisabled
  obtain ⟨account,haccount,henabled⟩ := session_enabled hrow hvalid
  rw [hdisabled account haccount] at henabled
  cases henabled

/-! ## Two sample runs -/

def sampleHasher : PasswordHasher where
  hashUnchecked := fun _ value => some ("$argon2$" ++ value)
  verifyPassword := fun value hash => some (hash == "$argon2$" ++ value)

theorem sampleHasher_verifies : sampleHasher.Verifies := by
  intro salt value hash h
  cases h
  simp [sampleHasher]

def sampleSettings : Settings := ⟨sampleHasher,Mail.sampleConfig,5,3600⟩

/-- A writer with the password of its first letter. -/
def sampleDb : Db where
  credentials := ⟨⟨[(11,⟨"student@example.edu","$argon2$A2bcDef3",true,.student,true⟩)],by decide⟩,by decide⟩
  roles := ⟨[(11,.writer)],by decide⟩
  sessions := .empty

def sampleToken : Digest := ⟨"00000000000000000000000000000000000000000000000000000000000000cc",by decide⟩

def sampleLogin : List Label :=
  [.login 0 "student@example.edu" "A2bcDef3" [],.verify 0]

def sampleReset : Label := .resetTemporary 10 11 id [] true 0 1 Mail.sampleNonce

def sampleStart : World := .start sampleSettings sampleDb (.start 0)

/-- The user and the count of revocations of a login that only lacks its session. -/
def Request.login? : Request → Option (UserId × ℕ)
  | .rotating user [] (some seen) => some (user,seen)
  | _ => none

/-- A login with the old password, the reset and the delivery of its letter. -/
theorem replaced_credentials_revoked_reset : RevocationContract sampleSettings sampleStart
    (sampleLogin ++ [.rotate 0 sampleToken,sampleReset,.mail (.claimBatch 0 20 [])]) := by
  apply replaced_credentials_revoked sampleSettings sampleHasher_verifies Mail.sampleCipher_opens
  refine ⟨trivial,trivial,?_,trivial,?_,trivial⟩
  · intro user seen hrequest
    have hlogin : ((run (World.step sampleSettings) sampleStart sampleLogin).requests 0).login? =
        some (11,0) := by
      decide +kernel
    have hcount : (run (World.step sampleSettings) sampleStart sampleLogin).revocations 11 = 0 := by
      decide +kernel
    change (run (World.step sampleSettings) sampleStart sampleLogin).requests 0 = _ at hrequest
    rw [hrequest] at hlogin
    cases hlogin
    exact Or.inl hcount
  · intro letter hletter row user _ _ _
    have hcurrent : (Mail.candidates 20 [] (run (World.step sampleSettings) sampleStart
        (sampleLogin ++ [.rotate 0 sampleToken,sampleReset])).mail.db).all
        (run (World.step sampleSettings) sampleStart
          (sampleLogin ++ [.rotate 0 sampleToken,sampleReset])).current = true := by
      decide +kernel
    exact List.all_eq_true.mp hcurrent letter hletter

/-- The reset falls between the verification of the old password and the session. -/
theorem session_after_reset : ¬RevocationContract sampleSettings sampleStart
    (sampleLogin ++ [sampleReset,.rotate 0 sampleToken]) := by
  intro h
  let after := run (World.step sampleSettings) sampleStart (sampleLogin ++ [sampleReset,.rotate 0 sampleToken])
  have hrow : (after.db.sessions.get? sampleToken).any (fun row => row.userId == 11) = true := by
    decide +kernel
  obtain ⟨row,hget,huser⟩ := (Option.any_eq_true _ _).mp hrow
  rw [beq_iff_eq] at huser
  have hlogin : after.logins sampleToken = some 0 := by decide +kernel
  have hvalid : (session after.now sampleToken after.db).isSome = true := by decide +kernel
  have hsame := h.sessions _ [] (List.append_nil _).symm sampleToken row 0 hget hlogin hvalid
  rw [huser] at hsame
  have hrevoked : after.revocations 11 = 1 := by decide +kernel
  exact absurd (hrevoked.symm.trans hsame) (by decide)

end LatexCore.Accounts
