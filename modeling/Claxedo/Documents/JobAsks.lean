import Claxedo.Documents.JobAuthority

/-! What each call on a job asks. Every write but a registration carries the etag of an active job the call has read; a
write that makes a capability active has just minted it; and what an opening expires is what its first read found, or
what it registered itself. -/

namespace Claxedo.Documents

open Claxedo.Lib

variable {ε : Type}

def DocumentJobRecord.jti? : DocumentJobRecord → Option Jti
  | .expired _ => none
  | .hosted job => some job.activeJti

def JobCall.opens : JobCall → Bool
  | .agentOpen _ _ => true
  | _ => false

/-- The calls that put a fresh capability in the place of an active one. -/
def JobCall.rotates : JobCall → Bool
  | .runtimeResolve _ _ | .runtimeRenew _ _ => true
  | _ => false

def got : Asked (JobOp ε) → Option (Option (JobObject ε))
  | ⟨.get, .ok object⟩ => some object
  | _ => none

def mintedBy : Asked (JobOp ε) → Option Jti
  | ⟨.mintDocumentSessionToken, .ok jti⟩ => some jti
  | _ => none

/-- A write and its answer: none where the store threw. -/
structure JobWrite (ε : Type) where
  record : DocumentJobRecord
  answer : Option (Option (JobObject ε))

def wrote : Asked (JobOp ε) → Option (JobWrite ε)
  | ⟨.put record _, answer⟩ => some ⟨record, answer.toOption⟩
  | _ => none

def gets (t : List (Asked (JobOp ε))) : List (Option (JobObject ε)) := t.filterMap got

def mints (t : List (Asked (JobOp ε))) : List Jti := t.filterMap mintedBy

def writes (t : List (Asked (JobOp ε))) : List (JobWrite ε) := t.filterMap wrote

variable {t t' t'' : List (Asked (JobOp ε))} {jti : Jti} {job : HostedDocumentJob} {object : JobObject ε}

@[simp] theorem gets_append (u : List (Asked (JobOp ε))) : gets (t ++ u) = gets t ++ gets u := List.filterMap_append

@[simp] theorem mints_append (u : List (Asked (JobOp ε))) : mints (t ++ u) = mints t ++ mints u := List.filterMap_append

@[simp] theorem writes_append (u : List (Asked (JobOp ε))) : writes (t ++ u) = writes t ++ writes u := List.filterMap_append

/-- A write of the capability may have landed. -/
def Used (t : List (Asked (JobOp ε))) (jti : Jti) : Prop :=
  ∃ write ∈ writes t, write.record.jti? = some jti ∧ write.answer ≠ some none

def Landed (t : List (Asked (JobOp ε))) (record : DocumentJobRecord) (written : JobObject ε) : Prop :=
  ⟨record, some (some written)⟩ ∈ writes t

/-- What an opening may expire: what its first read found active, or what it registered. -/
def Aimed (t : List (Asked (JobOp ε))) (jti : Jti) : Prop :=
  (∃ first job, (gets t).head? = some (some first) ∧ first.body = .hosted job ∧ job.activeJti = jti) ∨
    ∃ job written, Landed t (.hosted job) written ∧ job.activeJti = jti

/-- The job that a write with this etag replaces. -/
structure Replacing (kind : JobCall) (t : List (Asked (JobOp ε))) (etag : Option ε) (read : JobObject ε)
    (job : HostedDocumentJob) : Prop where
  was_read : some read ∈ gets t
  body : read.body = .hosted job
  named : etag = some read.etag
  rotates : kind.rotates = true → gets t = [some read]
  opens : kind.opens = true → Aimed t job.activeJti

def JobAsks (kind : JobCall) (t : List (Asked (JobOp ε))) : ∀ ⦃β : Type⦄, JobOp ε β → Prop
  | _, .put record etag =>
    (∀ jti ∈ record.jti?, jti ∈ mints t ∧ ¬ Used t jti) ∧
      (record.jti? = none ∨ kind.rotates = true → ∃ read job, Replacing kind t etag read job)
  | _, .get => kind.rotates = true → gets t = []
  | _, _ => True

/-- A call that rotates has gone through with its write. -/
def JobEnds (kind : JobCall) (t : List (Asked (JobOp ε))) : Prop :=
  kind.rotates = true → ∃ job written, Landed t (.hosted job) written

/-- Any answer may be given. -/
def anyAnswer ⦃β : Type⦄ (_ : JobOp ε β) (_ : β) : Prop := True

section
variable {β γ : Type} {kind : JobCall} {ends : List (Asked (JobOp ε)) → γ → Prop}

theorem asks_awaited {op : JobOp ε (Except String β)} {f : β → JobProgram ε γ} (hop : JobAsks kind t op)
    (hf : ∀ b, (f b).Asks anyAnswer (JobAsks kind) ends (t ++ [⟨op, .ok b⟩])) :
    (awaited op >>= f).Asks anyAnswer (JobAsks kind) ends t := by
  refine ⟨hop, fun answer _ => ?_⟩
  rcases answer with message | b
  · trivial
  · exact hf b

theorem asks_awaited_last {op : JobOp ε (Except String β)} {ends : List (Asked (JobOp ε)) → β → Prop} (hop : JobAsks kind t op)
    (hf : ∀ b, ends (t ++ [⟨op, .ok b⟩]) b) : (awaited op).Asks anyAnswer (JobAsks kind) ends t := by
  refine ⟨hop, fun answer _ => ?_⟩
  rcases answer with message | b
  · trivial
  · exact hf b

theorem asks_bind {p : JobProgram ε β} {f : β → JobProgram ε γ} {mid : List (Asked (JobOp ε)) → β → Prop}
    (h : p.Asks anyAnswer (JobAsks kind) mid t) (hf : ∀ t b, mid t b → (f b).Asks anyAnswer (JobAsks kind) ends t) :
    (p >>= f).Asks anyAnswer (JobAsks kind) ends t := h.bind hf

end

/-- The second trace goes on from the first, with nothing minted and no capability written. -/
structure Quiet (t t' : List (Asked (JobOp ε))) : Prop where
  reads : gets t <+: gets t'
  no_mint : mints t' = mints t
  no_capability : ∀ write ∈ writes t', write.record.jti? = none ∨ write ∈ writes t
  kept : writes t <+: writes t'

theorem Quiet.trans (h : Quiet t t') (h' : Quiet t' t'') : Quiet t t'' :=
  ⟨h.reads.trans h'.reads, h'.no_mint.trans h.no_mint,
    fun write hwrite => (h'.no_capability write hwrite).elim .inl (h.no_capability write), h.kept.trans h'.kept⟩

theorem Quiet.last {a : Asked (JobOp ε)} (hmint : mintedBy a = none)
    (hwrite : ∀ write, wrote a = some write → write.record.jti? = none) : Quiet t (t ++ [a]) := by
  refine ⟨?_, ?_, fun write h => ?_, ?_⟩
  · rw [gets_append]
    exact List.prefix_append _ _
  · rw [mints_append, mints, mints, List.filterMap_cons_none hmint, List.filterMap_nil, List.append_nil]
  · rw [writes_append] at h
    rcases List.mem_append.mp h with h | h
    · exact .inr h
    · obtain ⟨b, hb, heq⟩ := List.mem_filterMap.mp h
      obtain rfl := List.mem_singleton.mp hb
      exact .inl (hwrite write heq)
  · rw [writes_append]
    exact List.prefix_append _ _

theorem Quiet.used (h : Quiet t t') (hunused : ¬ Used t jti) : ¬ Used t' jti := by
  rintro ⟨write, hwrite, hjti, hanswer⟩
  rcases h.no_capability write hwrite with hnone | hmem
  · rw [hjti] at hnone
    cases hnone
  · exact hunused ⟨write, hmem, hjti, hanswer⟩

theorem Quiet.aimed (h : Quiet t t') (haimed : Aimed t jti) : Aimed t' jti := by
  rcases haimed with ⟨first, job, hfirst, hjob⟩ | ⟨job, written, hlanded, hjti⟩
  · refine .inl ⟨first, job, ?_, hjob⟩
    obtain ⟨more, hmore⟩ := h.reads
    rw [← hmore, List.head?_append, hfirst]
    rfl
  · exact .inr ⟨job, written, h.kept.subset hlanded, hjti⟩

/-- No write and no read yet, and nothing minted. -/
structure Fresh (t : List (Asked (JobOp ε))) : Prop where
  no_read : gets t = []
  no_mint : mints t = []
  no_write : writes t = []

theorem Fresh.nil : Fresh ([] : List (Asked (JobOp ε))) := ⟨rfl, rfl, rfl⟩

theorem Fresh.last {a : Asked (JobOp ε)} (h : Fresh t) (hgot : got a = none) (hmint : mintedBy a = none)
    (hwrote : wrote a = none) : Fresh (t ++ [a]) := by
  refine ⟨?_, ?_, ?_⟩
  · rw [gets_append, h.no_read, gets, List.filterMap_cons_none hgot]
    rfl
  · rw [mints_append, h.no_mint, mints, List.filterMap_cons_none hmint]
    rfl
  · rw [writes_append, h.no_write, writes, List.filterMap_cons_none hwrote]
    rfl

theorem Fresh.unused (h : Fresh t) : ¬ Used t jti := by
  rintro ⟨write, hwrite, -⟩
  rw [h.no_write] at hwrite
  cases hwrite

theorem parseJobRecord_ok {record parsed : DocumentJobRecord} (h : parseJobRecord record = .ok parsed) : record = parsed := by
  unfold parseJobRecord at h
  rcases record with jobExpiresAt | job
  · exact Except.ok.inj h
  · dsimp only at h
    split_ifs at h
    exact Except.ok.inj h

theorem Landed.append {record : DocumentJobRecord} {written : JobObject ε} (h : Landed t record written)
    (u : List (Asked (JobOp ε))) : Landed (t ++ u) record written := by
  unfold Landed
  rw [writes_append]
  exact List.mem_append_left _ h

theorem landed_last {record : DocumentJobRecord} {etag : Option ε} {written : JobObject ε} :
    Landed (t ++ [⟨.put record etag, .ok (some written)⟩]) record written := by
  unfold Landed
  rw [writes_append]
  exact List.mem_append_right _ (List.mem_singleton.mpr rfl)

section
variable {kind : JobCall} {ends : List (Asked (JobOp ε)) → Unit → Prop}

theorem not_rotates (hopens : kind.opens = true) : ¬ kind.rotates = true := by
  cases kind <;> simp [JobCall.opens, JobCall.rotates] at *

theorem asks_get (hopens : kind.opens = true) : JobAsks kind t .get := fun h => absurd h (not_rotates hopens)

/-- An expiry writes over what it has read, and only what it aims at: by induction on the attempts left. -/
theorem asks_expireJobFrom (hopens : kind.opens = true) {attempts : ℕ} {targetJti : Option Jti}
    (haimed : match targetJti with
      | none => gets t = []
      | some jti => Aimed t jti)
    (hends : ∀ t', Quiet t t' → ends t' ()) : (expireJobFrom attempts targetJti).Asks anyAnswer (JobAsks kind) ends t := by
  induction attempts generalizing t targetJti with
  | zero => trivial
  | succ attempts ih =>
    refine asks_awaited (asks_get hopens) fun object => ?_
    have hread : Quiet t (t ++ [⟨.get, .ok object⟩]) := .last rfl nofun
    rcases object with _ | object
    · exact hends _ hread
    · dsimp only
      rcases hparsed : parseJobRecord object.body with message | jobExpiresAt | job
      · trivial
      · exact hends _ hread
      · dsimp only
        split_ifs with htarget
        · exact hends _ hread
        · have hsame : job.activeJti = targetJti.getD job.activeJti := not_not.mp htarget
          have hbody := parseJobRecord_ok hparsed
          have haim : Aimed (t ++ [⟨.get, .ok (some object)⟩]) job.activeJti := by
            rcases targetJti with _ | jti
            · refine .inl ⟨object, job, ?_, hbody, rfl⟩
              rw [gets_append, haimed]
              rfl
            · have hjti : job.activeJti = jti := hsame
              rw [hjti]
              exact hread.aimed haimed
          refine asks_awaited ⟨nofun, fun _ => ⟨object, job, ?_, hbody, rfl, ?_, fun _ => haim⟩⟩ fun written => ?_
          · rw [gets_append]
            exact List.mem_append_right _ (List.mem_singleton.mpr rfl)
          · exact fun h => absurd h (not_rotates hopens)
          · have hwritten : Quiet t (t ++ [⟨.get, .ok (some object)⟩] ++
                [⟨.put (.expired job.jobExpiresAt) (some object.etag), .ok written⟩]) :=
              hread.trans (.last rfl fun write h => by
                cases h
                rfl)
            split_ifs with hlanded
            · exact hends _ hwritten
            · refine ih ?_ fun t' ht' => hends t' (hwritten.trans ht')
              rw [← hsame]
              exact (Quiet.last rfl fun write h => by
                cases h
                rfl).aimed haim

/-- A registration writes what it minted until it lands. -/
theorem asks_putJobFrom (hopens : kind.opens = true) {attempts : ℕ} (hmint : job.activeJti ∈ mints t)
    (hunused : ¬ Used t job.activeJti) (hends : ∀ t' written, Landed t' (.hosted job) written → ends t' ()) :
    (putJobFrom job attempts).Asks anyAnswer (JobAsks kind) ends t := by
  induction attempts generalizing t with
  | zero => trivial
  | succ attempts ih =>
    refine asks_awaited (asks_get hopens) fun current => ?_
    have hread : Quiet t (t ++ [⟨.get, .ok current⟩]) := .last rfl nofun
    refine asks_awaited ⟨?_, fun h => ?_⟩ fun written => ?_
    · rintro jti ⟨⟩
      exact ⟨hread.no_mint ▸ hmint, hread.used hunused⟩
    · exact h.elim nofun fun h => absurd h (not_rotates hopens)
    · rcases written with _ | written
      · refine ih ?_ ?_
        · rw [mints_append, mints_append]
          exact List.mem_append_left _ (List.mem_append_left _ hmint)
        · rintro ⟨write, hwrite, hjti, hanswer⟩
          rw [writes_append] at hwrite
          rcases List.mem_append.mp hwrite with hwrite | hwrite
          · exact hread.used hunused ⟨write, hwrite, hjti, hanswer⟩
          · obtain rfl := List.mem_singleton.mp hwrite
            exact hanswer rfl
      · exact hends _ written landed_last

/-- The call has read the active job once, and neither minted nor written. -/
structure Loaded (t : List (Asked (JobOp ε))) (loaded : JobObject ε × HostedDocumentJob) : Prop where
  once : gets t = [some loaded.1]
  body : loaded.1.body = .hosted loaded.2
  no_mint : mints t = []
  no_write : writes t = []

theorem Loaded.last {loaded : JobObject ε × HostedDocumentJob} {a : Asked (JobOp ε)} (h : Loaded t loaded)
    (hgot : got a = none) (hmint : mintedBy a = none) (hwrote : wrote a = none) : Loaded (t ++ [a]) loaded := by
  refine ⟨?_, h.body, ?_, ?_⟩
  · rw [gets_append, h.once, gets, List.filterMap_cons_none hgot]
    rfl
  · rw [mints_append, h.no_mint, mints, List.filterMap_cons_none hmint]
    rfl
  · rw [writes_append, h.no_write, writes, List.filterMap_cons_none hwrote]
    rfl

theorem Loaded.replacing {loaded : JobObject ε × HostedDocumentJob} (h : Loaded t loaded) (hopens : ¬ kind.opens = true) :
    Replacing kind t (some loaded.1.etag) loaded.1 loaded.2 :=
  ⟨h.once ▸ List.mem_singleton.mpr rfl, h.body, rfl, fun _ => h.once, fun h => absurd h hopens⟩

variable {ends : List (Asked (JobOp ε)) → JobObject ε × HostedDocumentJob → Prop}

theorem asks_loadJob (hopens : ¬ kind.opens = true) (hfresh : Fresh t) (hends : ∀ t' loaded, Loaded t' loaded → ends t' loaded) :
    loadJob.Asks anyAnswer (JobAsks kind) ends t := by
  refine asks_awaited (fun _ => hfresh.no_read) fun object => ?_
  rcases object with _ | object
  · trivial
  · dsimp only
    rcases hparsed : parseJobRecord object.body with message | jobExpiresAt | job
    · trivial
    · trivial
    · have hloaded : Loaded (t ++ [⟨.get, .ok (some object)⟩]) (object, job) := by
        refine ⟨?_, parseJobRecord_ok hparsed, ?_, ?_⟩
        · rw [gets_append, hfresh.no_read]
          rfl
        · rw [mints_append, hfresh.no_mint]
          rfl
        · rw [writes_append, hfresh.no_write]
          rfl
      refine ⟨trivial, fun now _ => ?_⟩
      have hnow := hloaded.last (a := ⟨.nowSeconds, now⟩) rfl rfl rfl
      dsimp only [Program.bind]
      split_ifs with hexpired
      · exact asks_awaited ⟨nofun, fun _ => ⟨object, job, hnow.replacing hopens⟩⟩ fun written => trivial
      · exact hends _ _ hnow

theorem asks_activeJob (hopens : ¬ kind.opens = true) {input : CapabilityInput} (hfresh : Fresh t)
    (hends : ∀ t' loaded, Loaded t' loaded → ends t' loaded) : (activeJob input).Asks anyAnswer (JobAsks kind) ends t := by
  refine asks_bind (asks_loadJob hopens hfresh fun _ _ h => h) fun t loaded hloaded => ?_
  refine asks_awaited trivial fun claims => ⟨trivial, fun now _ => ?_⟩
  dsimp only [Program.bind]
  split_ifs with hinactive
  · trivial
  · refine asks_awaited trivial fun auth => asks_awaited trivial fun _ => hends _ _ ?_
    exact (((hloaded.last rfl rfl rfl).last rfl rfl rfl).last rfl rfl rfl).last rfl rfl rfl

end

section
variable {kind : JobCall} (options : HostedDocumentsOptions)

theorem asks_liveEntry {input : CapabilityInput}
    {ends : List (Asked (JobOp ε)) → DocumentIndexEntry × JobObject ε × HostedDocumentJob → Prop}
    (hopens : ¬ kind.opens = true) (hfresh : Fresh t) (hends : ∀ t' live, Loaded t' live.2 → ends t' live) :
    (liveEntry input).Asks anyAnswer (JobAsks kind) ends t := by
  refine asks_bind (asks_activeJob hopens hfresh fun _ _ h => h) fun t loaded hloaded => ?_
  refine asks_awaited trivial fun entry => ?_
  rcases entry with _ | entry
  · trivial
  · exact hends _ (entry, loaded) (hloaded.last rfl rfl rfl)

theorem asks_placed {workspaceId : String} {loaded : JobObject ε × HostedDocumentJob} (hloaded : Loaded t loaded) :
    (placed options workspaceId).Asks anyAnswer (JobAsks kind) (fun t _ => Loaded t loaded) t := by
  unfold placed
  split_ifs
  · refine asks_awaited trivial fun current => ?_
    split_ifs
    · trivial
    · exact hloaded.last rfl rfl rfl
  · exact hloaded

theorem asks_rotate {loaded : JobObject ε × HostedDocumentJob} {conflicted : String} (hopens : ¬ kind.opens = true)
    (hloaded : Loaded t loaded) :
    (rotate loaded conflicted).Asks anyAnswer (JobAsks kind) (fun t _ => ∃ job written, Landed t (.hosted job) written) t := by
  refine asks_awaited trivial fun next => ?_
  have hread : Replacing kind (t ++ [⟨.mintDocumentSessionToken, .ok next⟩]) (some loaded.1.etag) loaded.1 loaded.2 := by
    refine ⟨?_, hloaded.body, rfl, fun _ => ?_, fun h => absurd h hopens⟩ <;> rw [gets_append, hloaded.once]
    · exact List.mem_singleton.mpr rfl
    · rfl
  refine asks_awaited ⟨?_, fun _ => ⟨loaded.1, loaded.2, hread⟩⟩ fun rotated => ?_
  · rintro jti ⟨⟩
    refine ⟨?_, ?_⟩
    · rw [mints_append]
      exact List.mem_append_right _ (List.mem_singleton.mpr rfl)
    · rintro ⟨write, hwrite, -⟩
      rw [writes_append, hloaded.no_write] at hwrite
      cases hwrite
  · rcases rotated with _ | written
    · trivial
    · exact ⟨_, written, landed_last⟩

theorem asks_openingWorkspace {entry : DocumentIndexEntry} (hfresh : Fresh t) :
    (openingWorkspace options entry).Asks anyAnswer (JobAsks kind) (fun t _ => Fresh t) t := by
  unfold openingWorkspace
  split_ifs
  · exact asks_awaited_last trivial fun _ => hfresh.last rfl rfl rfl
  · exact hfresh

theorem asks_expireJob_first (hopens : kind.opens = true) (hfresh : Fresh t) :
    (expireJob none).Asks anyAnswer (JobAsks kind) (fun t _ => mints t = [] ∧ ∀ jti, ¬ Used t jti) t :=
  asks_expireJobFrom hopens hfresh.no_read fun _ hquiet =>
    ⟨hquiet.no_mint.trans hfresh.no_mint, fun _ => hquiet.used hfresh.unused⟩

theorem asks_putJob (hopens : kind.opens = true) (hmint : job.activeJti ∈ mints t) (hunused : ¬ Used t job.activeJti) :
    (putJob job).Asks anyAnswer (JobAsks kind) (fun t _ => Aimed t job.activeJti) t :=
  asks_putJobFrom hopens hmint hunused fun _ written h => .inr ⟨job, written, h, rfl⟩

theorem asks_expireJob_registered (hopens : kind.opens = true) (haimed : Aimed t jti) :
    (expireJob (some jti)).Asks anyAnswer (JobAsks kind) (fun _ _ => True) t :=
  asks_expireJobFrom hopens haimed fun _ _ => trivial

theorem asks_agentOpen {entry : DocumentIndexEntry} {auth : Option String} (hopens : kind.opens = true) :
    (agentOpen options entry auth).Asks anyAnswer (JobAsks kind) (fun t _ => JobEnds (ε := ε) kind t) [] := by
  have hends : ∀ t : List (Asked (JobOp ε)), JobEnds kind t := fun t h => absurd h (not_rotates hopens)
  rcases auth with _ | auth
  · trivial
  · refine asks_awaited trivial fun _ => ?_
    refine asks_bind (asks_openingWorkspace options (Fresh.nil.last rfl rfl rfl)) fun t workspaceId hfresh => ?_
    refine asks_awaited trivial fun _ => ⟨trivial, fun now _ => asks_awaited trivial fun sealedAuth => ?_⟩
    have hsealed := ((hfresh.last (a := ⟨.work, .ok ()⟩) rfl rfl rfl).last (a := ⟨.nowSeconds, now⟩) rfl rfl rfl).last
      (a := ⟨.sealJobAuth auth, .ok sealedAuth⟩) rfl rfl rfl
    refine asks_bind (asks_expireJob_first hopens hsealed) fun t _ hunused => ?_
    refine asks_awaited trivial fun _ => asks_awaited trivial fun capability => asks_awaited trivial fun _ => ?_
    refine asks_bind (asks_putJob hopens ?_ ?_) fun t _ haimed => ?_
    · rw [mints_append, mints_append]
      exact List.mem_append_left _ (List.mem_append_right _ (List.mem_singleton.mpr rfl))
    · rintro ⟨write, hwrite, hjti⟩
      refine hunused.2 _ ⟨write, ?_, hjti⟩
      rw [writes_append, writes_append, writes_append] at hwrite
      simpa [writes, wrote] using hwrite
    · refine ⟨trivial, fun activated _ => ?_⟩
      dsimp only [Program.bind]
      rcases activated with message | _
      · have haimed' : Aimed (t ++ [⟨.work, .error message⟩]) capability :=
          (Quiet.last (a := ⟨.work, .error message⟩) rfl fun write h => by cases h).aimed haimed
        exact asks_bind (asks_expireJob_registered hopens haimed') fun _ _ _ => trivial
      · exact hends _

theorem asks_jobProgram (kind : JobCall) :
    (jobProgram options kind).Asks anyAnswer (JobAsks kind) (fun t _ => JobEnds (ε := ε) kind t) [] := by
  cases kind with
  | agentOpen entry auth => exact asks_agentOpen options rfl
  | runtimeResolve entry subject =>
    have hopens : ¬ (JobCall.runtimeResolve entry subject).opens = true := Bool.false_ne_true
    unfold jobProgram runtimeResolve
    dsimp only
    split_ifs
    · trivial
    · refine asks_bind (asks_loadJob hopens .nil fun _ _ h => h) fun t loaded hloaded => ?_
      refine asks_awaited trivial fun original => asks_awaited trivial fun _ => ⟨trivial, fun now _ => ?_⟩
      dsimp only [Program.bind]
      split_ifs
      · trivial
      · refine asks_bind (asks_placed options (((hloaded.last rfl rfl rfl).last rfl rfl rfl).last rfl rfl rfl))
          fun t _ hloaded => asks_awaited trivial fun _ => ?_
        refine asks_bind (asks_rotate hopens (hloaded.last rfl rfl rfl)) fun t _ hlanded => ?_
        refine asks_awaited_last trivial fun _ _ => ?_
        obtain ⟨job, written, hlanded⟩ := hlanded
        exact ⟨job, written, hlanded.append _⟩
  | runtimeDispose input =>
    have hopens : ¬ (JobCall.runtimeDispose input).opens = true := Bool.false_ne_true
    refine asks_bind (asks_activeJob hopens .nil fun _ _ h => h) fun t loaded hloaded => ?_
    refine asks_awaited ⟨nofun, fun _ => ⟨loaded.1, loaded.2, hloaded.replacing hopens⟩⟩ fun tombstoned => ?_
    split_ifs
    · exact fun h => absurd h Bool.false_ne_true
    · trivial
  | runtimeWriteback entry input =>
    have hopens : ¬ (JobCall.runtimeWriteback entry input).opens = true := Bool.false_ne_true
    refine asks_bind (asks_activeJob hopens .nil fun _ _ h => h) fun t loaded hloaded => ?_
    split_ifs
    · trivial
    · trivial
    · exact asks_awaited_last trivial fun _ h => absurd h Bool.false_ne_true
  | runtimeRenew entry input =>
    have hopens : ¬ (JobCall.runtimeRenew entry input).opens = true := Bool.false_ne_true
    unfold jobProgram runtimeRenew
    dsimp only
    split_ifs
    · trivial
    · refine asks_bind (asks_liveEntry hopens .nil fun _ _ h => h) fun t live hloaded => ⟨trivial, fun now _ => ?_⟩
      dsimp only [Program.bind]
      split_ifs
      · trivial
      · exact asks_bind (asks_placed options (hloaded.last rfl rfl rfl)) fun _ _ _ => trivial
      · refine asks_bind (asks_placed options (hloaded.last rfl rfl rfl)) fun t _ hloaded => ?_
        exact (asks_rotate hopens hloaded).mono fun _ _ h _ => h

end

end Claxedo.Documents
