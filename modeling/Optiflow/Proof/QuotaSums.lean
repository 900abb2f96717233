import Optiflow.Lib.MachineInt
import Optiflow.Proof.Quota
import Optiflow.Proof.Rooted
import Optiflow.Proof.UploadStart

/-!
# The arithmetic of the quota

`checkQuota` adds the incoming size to the stored sum in an int64, and the incoming size is the client's
to choose.  When the sum wraps it is negative and passes every test; then the stored sum no longer fits
the int64 that later checks scan it into.  Below 2^63 the check is right, and in runs in which every
check stays below, the stored sum fits (`quota_check_right_iff`).
-/

namespace Optiflow

open Interleave UploadSvc

/-! ## The property -/

/-- `checkQuota` comes to nil when the quota allows for the size, and else to `errQuotaExceeded`. -/
def ChecksQuota (deps : Deps) (s : Store) (u : User) (incomingBytes : Int64) : Prop :=
  ∃ r, (∀ o k, o.fails = false → (services deps).alone o (checkQuota u.id incomingBytes k) s =
      (services deps).alone o (k r) s) ∧
    (r = .ok () ↔ s.db.usedBytes u.id + incomingBytes.toInt ≤ u.storageQuotaBytes.toInt) ∧
    (u.storageQuotaBytes.toInt < s.db.usedBytes u.id + incomingBytes.toInt →
      ∃ message, r = .error (.exceeded message))

/-- If a check reads the stored sum, the sum and the incoming size come to less than 2^63. -/
def checkFits : ServiceStep → Bool
  | .call s q _ (.query (.sumSizes userID)) _ =>
    s.db.usedBytes userID + q.incomingBytes.toInt < 2 ^ 63
  | _ => true

/-- No row comes from a resumable upload, which is admitted before its bytes are there. -/
def notResumable : ServiceStep → Bool
  | .call _ (.finishTusUpload _) _ (.write (.createFile _)) _ => false
  | _ => true

/-! ## One check -/

section Check

variable {deps : Deps} {s : Store} {u : User} {n : Int64}

/-- What a check comes to in a run without a failing call. -/
theorem checkQuota_alone (hu : u ∈ s.db.users) :
    ∃ r, (∀ o k, o.fails = false → (services deps).alone o (checkQuota u.id n k) s =
        (services deps).alone o (k r) s) ∧
      ((¬(-2 ^ 63 ≤ s.db.usedBytes u.id ∧ s.db.usedBytes u.id < 2 ^ 63) ∧ r = .error .other) ∨
        ∃ used : Int64, used.toInt = s.db.usedBytes u.id ∧
          ((used + n ≤ u.storageQuotaBytes ∧ r = .ok ()) ∨
            (¬used + n ≤ u.storageQuotaBytes ∧ ∃ message, r = .error (.exceeded message)))) := by
  by_cases hfits : -2 ^ 63 ≤ s.db.usedBytes u.id ∧ s.db.usedBytes u.id < 2 ^ 63
  · have hsum : (Query.sumSizes u.id).eval s.db = .ok (Int64.ofInt (s.db.usedBytes u.id)) := by
      rw [Query.eval, if_pos hfits]
    have hused := Int64.toInt_ofInt_of_le hfits.1 hfits.2
    by_cases hle : Int64.ofInt (s.db.usedBytes u.id) + n ≤ u.storageQuotaBytes
    · refine ⟨.ok (), fun o k ho => ?_, Or.inr ⟨_, hused, Or.inl ⟨hle, rfl⟩⟩⟩
      refine (alone_query_eq ho _ _).trans ?_
      rw [Query.eval_storageQuota hu]
      refine (alone_query_eq ho _ _).trans ?_
      rw [hsum]
      simp only [gt_iff_lt, Int64.not_lt.2 hle, if_false]
      rfl
    · refine ⟨.error (.exceeded ("storage quota exceeded: " ++
        toString (Int64.ofInt (s.db.usedBytes u.id)).toInt ++ " of " ++
        toString u.storageQuotaBytes.toInt ++ " bytes used, this upload needs " ++
        toString n.toInt ++ " more")), fun o k ho => ?_, Or.inr ⟨_, hused, Or.inr ⟨hle, _, rfl⟩⟩⟩
      refine (alone_query_eq ho _ _).trans ?_
      rw [Query.eval_storageQuota hu]
      refine (alone_query_eq ho _ _).trans ?_
      rw [hsum]
      simp only [gt_iff_lt, Int64.not_le.1 hle, if_true]
      rfl
  · refine ⟨.error .other, fun o k ho => ?_, Or.inl ⟨hfits, rfl⟩⟩
    refine (alone_query_eq ho _ _).trans ?_
    rw [Query.eval_storageQuota hu]
    refine (alone_query_eq ho _ _).trans ?_
    rw [Query.eval, if_neg hfits]
    rfl

/-- The program tells the outcomes apart. -/
theorem outcome_unique {c : Handler (Except QuotaError Unit)} {r r' : Except QuotaError Unit}
    (h : ∀ o k, o.fails = false → (services deps).alone o (c k) s = (services deps).alone o (k r) s)
    (h' : ∀ o k, o.fails = false → (services deps).alone o (c k) s = (services deps).alone o (k r') s)
    (P : Except QuotaError Unit → Prop) (hr : P r) : P r' := by
  classical
  by_contra hr'
  have heq := (h {} (fun x => .ret (if P x then .noContent else .running)) rfl).symm.trans
    (h' {} (fun x => .ret (if P x then .noContent else .running)) rfl)
  rw [if_pos hr, if_neg hr'] at heq
  cases heq

/-- **One check is right exactly when its sum does not overflow.** -/
theorem checksQuota_iff (hu : u ∈ s.db.users) (hquota : 0 ≤ u.storageQuotaBytes.toInt)
    (hstored : 0 ≤ s.db.usedBytes u.id) (hn : 0 < n.toInt) :
    ChecksQuota deps s u n ↔ s.db.usedBytes u.id + n.toInt < 2 ^ 63 := by
  have hmax := Int64.toInt_lt u.storageQuotaBytes
  obtain ⟨r, hrun, ⟨hfits, rfl⟩ | ⟨used, hused, hcases⟩⟩ := @checkQuota_alone deps s u n hu
  · -- The stored sum does not fit already.
    have hlarge : 2 ^ 63 ≤ s.db.usedBytes u.id := by omega
    refine iff_of_false (fun ⟨r', hrun', _, hexceeded⟩ => ?_) (by omega)
    obtain ⟨message, rfl⟩ := hexceeded (by omega)
    have hother := outcome_unique hrun hrun' (fun x => x = .error .other) rfl
    cases hother
  · have hle := @Int64.add_le_iff used n u.storageQuotaBytes (by omega) (by omega) hquota
    rw [hused] at hle
    rw [← hle]
    constructor
    · rintro ⟨r', hrun', hok, -⟩
      rw [← hok]
      rcases hcases with ⟨hfits, rfl⟩ | ⟨hrefuse, message, rfl⟩
      · exact iff_of_true hfits (outcome_unique hrun hrun' (fun x => x = .ok ()) rfl)
      · refine iff_of_false hrefuse fun hr' => ?_
        have hexceeded := outcome_unique hrun hrun' (fun x => x = .error (.exceeded message)) rfl
        cases hr'.symm.trans hexceeded
    · intro hexact
      refine ⟨r, hrun, ?_, fun hover => ?_⟩
      · rw [← hexact]
        rcases hcases with ⟨hfits, rfl⟩ | ⟨hrefuse, message, rfl⟩
        · exact iff_of_true rfl hfits
        · exact iff_of_false (fun h => by cases h) hrefuse
      · rcases hcases with ⟨hfits, rfl⟩ | ⟨-, hmessage⟩
        · exact absurd (hexact.1 hfits) (not_le.2 hover)
        · exact hmessage

end Check

/-! ## Runs -/

/-- The test of `checkQuota`, when its sum does not overflow. -/
def DB.quotaAllows (db : DB) (userID : UUID) (incomingBytes : Int64) : Bool :=
  match (Query.storageQuota userID).eval db, (Query.sumSizes userID).eval db with
  | .ok storageQuotaBytes, .ok used =>
    !(used + incomingBytes > storageQuotaBytes) && used.toInt + incomingBytes.toInt < 2 ^ 63
  | _, _ => false

theorem DB.fits_of_quotaAllows {db : DB} {u : User} (hu : u ∈ db.users) {n : Int64} (hn : 0 ≤ n.toInt)
    (h : db.quotaAllows u.id n = true) : db.fits u n = true := by
  unfold DB.quotaAllows at h
  rw [Query.eval_storageQuota hu] at h
  split at h
  · next quota used hquota hused =>
    obtain rfl := Except.ok.inj hquota
    simp only [Bool.and_eq_true, Bool.not_eq_true', decide_eq_false_iff_not, decide_eq_true_eq] at h
    have hexact := Query.toInt_of_sumSizes hused
    have hge := Int64.le_toInt used
    exact DB.fits_of_test hexact (by omega) (by omega) h.1
  · cases h

/-- No account declares more than its quota. -/
def DB.QuotasKept (db : DB) : Prop :=
  ∀ u ∈ db.users, 0 ≤ u.storageQuotaBytes.toInt → db.usedBytes u.id ≤ u.storageQuotaBytes.toInt

/-- A row is made when the quota has allowed for it. -/
def WriteChecked (db : DB) {α : Type} : Stmt α → Prop
  | .write (.createFile mk) => ∀ id, db.quotaAllows (mk id).userID (mk id).sizeBytes = true
  | .write (.presignVersion _ _ mk) => ∀ id, db.quotaAllows (mk id).userID (mk id).sizeBytes = true
  | _ => True

/-- The outline of requests that run one at a time and check without overflow. -/
def checked (deps : Deps) : Outline (services deps) where
  inv s := s.db.QuotasKept
  rely s t := t.db = s.db
  pre q _ e s := q.startsUpload = true → WriteChecked s.db e
  post _ _ := True
  cond st := checkFits st = true ∧ notResumable st = true

section Handlers

variable {deps : Deps} {q : Request} {s : Store} {α : Type}

/-- Reading a program against `checked`. -/
abbrev Checked (deps : Deps) (q : Request) (p : Prog Stmt Reply) (s : Store) : Prop :=
  (checked deps).Safe q p s

theorem checked_answer (status : ℕ) (message : String) :
    (checked deps).post q (.error status message) := trivial

theorem checked_over (c : Handler α) {k : α → Prog Stmt Reply} (hc : Inert true c)
    (h : ∀ a (t : Store), t.db = s.db → Checked deps q (k a) t) : Checked deps q (c k) s := by
  refine safe_over (fun hst => hst) (fun {_ e} t he _ => ?_) (fun _ => trivial) c hc h
  cases e with
  | write w => exact he.elim
  | _ => trivial

/-- What a check that has let a size in says of the tables. -/
theorem checked_checkQuota {userID : UUID} {n : Int64} (hn : q.incomingBytes = n)
    {k : Except QuotaError Unit → Prog Stmt Reply} (herror : ∀ e t, Checked deps q (k (.error e)) t)
    (h : ∀ t : Store, t.db = s.db → t.db.quotaAllows userID n = true → Checked deps q (k (.ok ())) t) :
    Checked deps q (checkQuota userID n k) s := by
  refine safe_query (fun _ _ _ _ => trivial) fun o t hst _ _ => ?_
  cases hquota : (Query.storageQuota userID).run o t.db with
  | error e => exact herror _ t
  | ok quota =>
    refine safe_query (fun _ _ _ _ => trivial) fun o' u htu _ hcond => ?_
    cases hused : (Query.sumSizes userID).run o' u.db with
    | error e => exact herror _ u
    | ok used =>
      by_cases hover : used + n > quota
      · simpa [hover] using herror _ u
      · have htests : Checked deps q (k (.ok ())) u := by
          refine h u (htu.trans hst) ?_
          rw [← htu] at hquota
          have hfits := hcond.1
          simp only [checkFits, hn, decide_eq_true_eq] at hfits
          unfold DB.quotaAllows
          rw [Query.eval_of_ok hquota, Query.eval_of_ok hused]
          simp only [hover, decide_false, Bool.not_false, Bool.true_and, decide_eq_true_eq]
          rwa [Query.toInt_of_sumSizes (Query.eval_of_ok hused)]
        simpa [hover] using htests

theorem checked_write {w : Write α} {k : Except DbError α → Prog Stmt Reply}
    (hw : WriteChecked s.db (.write w)) (h : ∀ a t, Checked deps q (k a) t) :
    Checked deps q (write w k) s :=
  safe_write (fun t hst _ _ => by rw [hst]; exact hw) fun o a t db' _ _ _ _ _ => h a { t with db := db' }

/-- A check that does not let the size in ends the request. -/
theorem checked_refused {e : QuotaError} {k : Unit → Prog Stmt Reply} :
    Checked deps q (orQuotaError (.error e) k) s := by
  cases e with
  | exceeded message => trivial
  | other => trivial

theorem checked_presign {userID : UUID} {body : Option PresignRequest} :
    Checked deps (.presign userID body) (presign userID body .ret) s := by
  refine safe_decodeBody checked_answer fun req hbody => safe_failIf checked_answer fun _ => ?_
  refine checked_checkQuota (by rw [hbody]; rfl) (fun e t => checked_refused) fun t _ hquota => ?_
  refine checked_over (ownedFolderID _ _) (reads_ownedFolderID _ _).inert fun folderID u hut => ?_
  refine checked_write (fun id => by rw [hut]; exact hquota) fun a v => ?_
  refine safe_foundOr checked_answer fun file _ => ?_
  exact checked_over (presignUpload file) (inert_presignUpload file) fun _ _ _ => trivial

theorem checked_presignVersion {userID : UUID} {id : GoString} {body : Option PresignVersionRequest} :
    Checked deps (.presignVersion userID id body) (presignVersion userID id body .ret) s := by
  refine safe_parseID checked_answer fun fileID _ => safe_decodeBody checked_answer fun req hbody => ?_
  refine safe_failIf checked_answer fun _ => ?_
  refine checked_over (query _) (over_query _) fun a t _ => safe_found checked_answer fun file _ => ?_
  refine checked_checkQuota (by rw [hbody]; rfl) (fun e t => checked_refused) fun u _ hquota => ?_
  refine checked_over (query _) (over_query _) fun a v hvu => ?_
  refine safe_foundOr checked_answer fun current _ => ?_
  refine checked_over (query _) (over_query _) fun a w hwv => ?_
  refine safe_foundOr checked_answer fun maxVersion _ => ?_
  refine checked_write (fun id => by rw [hwv, hvu]; exact hquota) fun a x => ?_
  refine safe_foundOr checked_answer fun file _ => ?_
  exact checked_over (presignUpload file) (inert_presignUpload file) fun _ _ _ => trivial

theorem checked_handler (q : Request) : Checked deps q (q.handler deps .ret) s := by
  cases q with
  | presign userID body => exact checked_presign
  | presignVersion userID id body => exact checked_presignVersion
  | _ => exact Outline.safe_of_trivial (fun _ _ hq => by cases hq) (fun _ => trivial) _ _

end Handlers

/-- Provenance, sizes, lineages and checks together. -/
abbrev quotaOutline (deps : Deps) : Outline (services deps) :=
  ((provenance deps).inf (sizes deps)).inf ((rooted deps).inf (checked deps))

/-- Each row that is made fits. -/
theorem fits_of_checked {s : Store} {q : Request} {α : Type} {o : Oracle} {w : Write α}
    {a : Except DbError α} {u : User} (hu : u ∈ s.db.users) (hknown : WriteKnown s q w)
    (hrooted : q.versions = true → WriteRooted s.db w)
    (hchecked : q.startsUpload = true → WriteChecked s.db (.write w))
    (hresumable : notResumable (.call s q o (.write w) a) = true) : w.Fits u s.db := by
  cases w with
  | createFile mk =>
    intro id huser
    obtain ⟨-, -, ⟨hp, owner, body, rfl⟩ | ⟨upload, rfl, -⟩⟩ := hknown id
    · exact DB.fits_of_quotaAllows hu hp.size_pos.le (huser ▸ hchecked rfl id)
    · cases hresumable
  | presignVersion owner root mk =>
    intro id huser
    obtain ⟨⟨text, body, rfl⟩, -, hmk⟩ := hknown
    exact DB.fits_of_quotaAllows hu (hmk id).2.2.2.2.size_pos.le (huser ▸ hchecked rfl id)
  | saveFile f =>
    have hversions : q.versions = true := by
      obtain ⟨⟨owner, id, rfl⟩ | ⟨owner, id, body, rfl⟩, -⟩ := hknown <;> rfl
    obtain ⟨r, hr, hid, -⟩ := hrooted hversions
    exact fun _ => Or.inl ⟨r, hr, hid⟩
  | _ => trivial

theorem quota_seqValid (deps : Deps) : (quotaOutline deps).SeqValid where
  rely_refl s := ⟨(sizes_valid deps).rely_refl s, rfl, rfl⟩
  start hc h hq := by
    obtain ⟨hsized, hrooted, hquota⟩ := h
    refine ⟨((sizes_valid deps).start hc.1 hsized hq).1,
      ((rooted_seqValid deps).start ⟨trivial, trivial⟩ ⟨hsized.1, hrooted⟩ hq).2, ?_⟩
    show DB.QuotasKept _
    exact (launch_cases hq).1 ▸ hquota
  safe hc h hq h' := ((sizes_valid deps).safe hc.1 h.1 hq h'.1).inf
    ((rooted_handler _).inf (checked_handler _))
  call {q o α e a s s'} h hpre hc hx := by
    obtain ⟨hsized, hrooted, hquota⟩ := h
    obtain ⟨hknown, hpreRooted, hpreChecked⟩ := hpre
    refine ⟨((sizes_valid deps).call hsized hknown hc.1 hx).1,
      ((rooted_seqValid deps).call ⟨hsized.1, hrooted⟩ ⟨hknown.1, hpreRooted⟩ ⟨trivial, trivial⟩ hx).2, ?_⟩
    rw [services_exec] at hx
    cases e with
    | write w =>
      obtain ⟨db', hw, rfl⟩ := exec_write hx
      intro u hu hnonneg
      have hu' : u ∈ s.db.users := Write.run_users hw ▸ hu
      exact usedBytes_write_le hsized.1 hsized.2.2 hknown.1 hknown.2 (hquota u hu' hnonneg)
        (fits_of_checked hu' hknown.1 hpreRooted hpreChecked hc.2.2.2) hw
    | _ =>
      show s'.db.QuotasKept
      exact (exec_db rfl hx) ▸ hquota
  env hc h hv := by
    obtain ⟨hsized, hrooted, hquota⟩ := h
    refine ⟨((sizes_valid deps).env hc.1 hsized hv).1,
      ((rooted_seqValid deps).env ⟨trivial, trivial⟩ ⟨hsized.1, hrooted⟩ hv).2, ?_⟩
    show DB.QuotasKept _
    exact (env_cases hv).1 ▸ hquota

/-- Runs leave the accounts as they are. -/
theorem users_of_reaches {deps : Deps} {sch : Machine.Schedule Store Request Reply Oracle EnvMove Stmt}
    {c₀ c : Services} (h : (services deps).Reaches sch c₀ c) : c.store.db.users = c₀.store.db.users := by
  refine h.store (I := fun s => s.db.users = c₀.store.db.users) rfl ?_ ?_ ?_
  · intro q s s' hs hq
    rwa [(launch_cases hq).1]
  · intro o α e a s s' hs hx
    rw [services_exec] at hx
    cases e with
    | write w =>
      obtain ⟨db', hw, rfl⟩ := exec_write hx
      exact (Write.run_users hw).trans hs
    | _ => rwa [exec_db rfl hx]
  · intro v s s' hs hv
    rwa [(env_cases hv).1]

/-- **The decision about the quota is right exactly while nothing overflows.**  One check is, if and only
if the stored sum and the incoming size come to less than 2^63.  When requests run one at a time and every
check stays below, the stored sum fits in every state reached. -/
theorem quota_check_right_iff (deps : Deps) :
    (∀ (s : Store) (u : User) (incomingBytes : Int64), u ∈ s.db.users →
      0 ≤ u.storageQuotaBytes.toInt → (∀ f ∈ s.db.files, 0 ≤ f.sizeBytes.toInt) →
      0 < incomingBytes.toInt →
      (ChecksQuota deps s u incomingBytes ↔ s.db.usedBytes u.id + incomingBytes.toInt < 2 ^ 63)) ∧
    ∀ (users : Table User) (c : Services),
      (services deps).Reaches Machine.sequential (start (Store.fresh users)) c →
      (∀ st ∈ c.trace, honestClient st = true) → (∀ st ∈ c.trace, notResumable st = true) →
      (∀ st ∈ c.trace, checkFits st = true) →
      ∀ u ∈ users, 0 ≤ u.storageQuotaBytes.toInt →
        0 ≤ c.store.db.usedBytes u.id ∧ c.store.db.usedBytes u.id < 2 ^ 63 := by
  constructor
  · intro s u n hu hquota hstored hn
    exact checksQuota_iff hu hquota (DB.usedBytes_nonneg hstored u.id) hn
  · intro users c h hhonest hresumable hfits u hu hquota
    have hwf := wellFormed_fresh users
    obtain ⟨⟨⟨-, -, hsized⟩, -, hkept⟩, -⟩ := (quota_seqValid deps).good h
      (Outline.good_init ⟨⟨hwf, hwf, sized_fresh users⟩, ⟨hwf, rooted_fresh users⟩, fun v _ hv => hv⟩)
      (Outline.oneRunning_init _)
      fun st hst => ⟨⟨trivial, hhonest st hst⟩, trivial, hfits st hst, hresumable st hst⟩
    have hmem : u ∈ c.store.db.users := users_of_reaches h ▸ hu
    have hle := hkept u hmem hquota
    have hmax := Int64.toInt_lt u.storageQuotaBytes
    exact ⟨DB.usedBytes_nonneg (fun f hf => hsized.row_nonneg hf) u.id, by omega⟩

/-! ### A byte, and as many as there can be -/

/-- A file of 600 bytes and one of 400. -/
theorem quota_check_right_iff_full :
    ∃ c : Services, (services plainDeps).Reaches Machine.sequential
      (start (Store.fresh aliceOnly)) c ∧ c.store.db.usedBytes 1 = 1000 ∧
      0 ≤ c.store.db.usedBytes alice.id ∧ c.store.db.usedBytes alice.id < 2 ^ 63 := by
  obtain ⟨c, hc, hP⟩ := exists_run Machine.sequential
    [.start (declare 600), .step 0 {}, .step 0 {}, .step 0 { uuid := 100 }, .step 0 {}, .step 0 {},
      .start (declare 400), .step 1 {}, .step 1 {}, .step 1 { uuid := 101 }]
    (fun c => c.store.db.usedBytes 1 = 1000 &&
      c.trace.all fun st => honestClient st && (notResumable st && checkFits st))
    (by decide)
  simp only [Bool.and_eq_true, List.all_eq_true, decide_eq_true_eq] at hP
  exact ⟨c, hc, hP.1, (quota_check_right_iff plainDeps).2 aliceOnly c hc (fun st hst => (hP.2 st hst).1)
    (fun st hst => (hP.2 st hst).2.1) (fun st hst => (hP.2 st hst).2.2) alice
    (List.mem_singleton.2 rfl) (by decide)⟩

/-- One byte is stored; the check lets 2^63 - 1 more pass a quota of 1000. -/
theorem quota_check_wraps :
    ∃ c : Services, (services plainDeps).Reaches Machine.sequential
      (start (Store.fresh aliceOnly)) c ∧ (∀ st ∈ c.trace, succeeds st = true) ∧
      (∀ st ∈ c.trace, honestClient st = true) ∧ (∀ st ∈ c.trace, notResumable st = true) ∧
      alice ∈ c.store.db.users ∧ ¬c.store.db.usedBytes alice.id < 2 ^ 63 := by
  obtain ⟨c, hc, hP⟩ := exists_run Machine.sequential
    [.start (declare 1), .step 0 {}, .step 0 {}, .step 0 { uuid := 100 }, .step 0 {}, .step 0 {},
      .start (declare 9223372036854775807), .step 1 {}, .step 1 {}, .step 1 { uuid := 101 }]
    (fun c => (c.trace.all fun st => succeeds st && (honestClient st && notResumable st)) &&
      (c.store.db.users.rows.any (fun u => u = alice) && decide (2 ^ 63 ≤ c.store.db.usedBytes 1)))
    (by decide)
  simp only [Bool.and_eq_true, List.all_eq_true, List.any_eq_true, decide_eq_true_eq] at hP
  obtain ⟨hs, ⟨u, hu, rfl⟩, hused⟩ := hP
  exact ⟨c, hc, fun st hst => (hs st hst).1, fun st hst => (hs st hst).2.1,
    fun st hst => (hs st hst).2.2, hu, not_lt.2 hused⟩

end Optiflow
