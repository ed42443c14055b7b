import Claxedo.Documents.JobAsks

/-! A document capability that was replaced, tombstoned or expired stays so. Every capability in the job object was
minted by the one call that wrote it, and written once; so an etag read with it stands only until the next write. -/

namespace Claxedo.Documents

open Claxedo.Lib

variable {ε : Type} {etags : Etags ε DocumentJobRecord}

abbrev JobCalls (etags : Etags ε DocumentJobRecord) := Flights (JobOp ε) JobCall (JobWorld etags)

/-- One call's part of the invariant: what it read and wrote is on record, and a write on an etag came right after the
version the etag was read with. -/
structure CallHeld (world : JobWorld etags) (kind : JobCall) (t : List (Asked (JobOp ε))) : Prop where
  reads : ∀ object, some object ∈ gets t → Uploaded etags world.store.uploads () object
  minted : ∀ jti ∈ mints t, jti < world.minted
  landed : ∀ record written, Landed t record written → Uploaded etags world.store.uploads () written ∧ written.body = record
  own : ∀ record written, Landed t record written → ∀ jti ∈ record.jti?, jti ∈ mints t
  replaced : ∀ record written, Landed t record written → record.jti? = none ∨ kind.rotates = true → ∃ read job,
    some read ∈ gets t ∧ read.body = .hosted job ∧ written.version = read.version + 1 ∧
      (kind.rotates = true → gets t = [some read]) ∧ (kind.opens = true → Aimed t job.activeJti)

/-- The upload that stands is the last one. -/
def Standing (store : ObjectStore etags Unit) : Prop :=
  match store.objects () with
  | none => store.uploads = []
  | some object => object.version + 1 = store.uploads.length

/-- The n-th upload was this job's. -/
def Recorded (store : ObjectStore etags Unit) (n : ℕ) (job : HostedDocumentJob) : Prop :=
  store.uploads[n]? = some ((), .hosted job)

structure Held (s : JobCalls etags) : Prop where
  calls : ∀ call ∈ s.calls, CallHeld s.world call.kind call.asked
  owner : ∀ (i k : ℕ) (a b : Flight (JobOp ε) JobCall), s.calls[i]? = some a → s.calls[k]? = some b →
      ∀ jti ∈ mints a.asked, jti ∈ mints b.asked → i = k
  used : ∀ n job, Recorded s.world.store n job →
    ∃ call ∈ s.calls, job.activeJti ∈ mints call.asked ∧ Used call.asked job.activeJti
  once : ∀ n m job job', Recorded s.world.store n job →
    Recorded s.world.store m job' → job.activeJti = job'.activeJti → n = m
  standing : Standing s.world.store

variable {s s' : JobCalls etags} {world world' : JobWorld etags} {kind : JobCall} {t t' : List (Asked (JobOp ε))}
  {jti : Jti}

theorem Used.append (h : Used t jti) (u : List (Asked (JobOp ε))) : Used (t ++ u) jti := by
  obtain ⟨write, hwrite, hjti, hanswer⟩ := h
  refine ⟨write, ?_, hjti, hanswer⟩
  rw [writes_append]
  exact List.mem_append_left _ hwrite

theorem Aimed.append (h : Aimed t jti) (u : List (Asked (JobOp ε))) : Aimed (t ++ u) jti := by
  rcases h with ⟨first, job, hfirst, hjob⟩ | ⟨job, written, hlanded, hjti⟩
  · refine .inl ⟨first, job, ?_, hjob⟩
    rw [gets_append, List.head?_append, hfirst]
    rfl
  · exact .inr ⟨job, written, hlanded.append u, hjti⟩

theorem CallHeld.nil : CallHeld world kind [] := by
  refine ⟨fun _ h => ?_, fun _ h => ?_, fun _ _ h => ?_, fun _ _ h => ?_, fun _ _ h => ?_⟩ <;> cases h

variable {a : Asked (JobOp ε)} {call : Flight (JobOp ε) JobCall} {i : ℕ} {rest : Program (JobOp ε) Unit Unit}
  {record : DocumentJobRecord} {store : ObjectStore etags Unit} {job : HostedDocumentJob}

/-- What a longer trace keeps: a read after a rotation's own is the only thing that could break it. -/
theorem CallHeld.later (h : CallHeld world kind t) (hgrows : world.store.uploads <+: world'.store.uploads)
    (hminted : world.minted ≤ world'.minted)
    (hread : ∀ answer, got a = some answer → (kind.rotates = true → gets t = []) ∧ ∀ object ∈ answer,
      Uploaded etags world'.store.uploads () object)
    (hmint : ∀ jti, mintedBy a = some jti → jti < world'.minted)
    (hwrite : ∀ record written, wrote a = some ⟨record, some (some written)⟩ →
      (Uploaded etags world'.store.uploads () written ∧ written.body = record) ∧ (∀ jti ∈ record.jti?, jti ∈ mints t) ∧
      (record.jti? = none ∨ kind.rotates = true → ∃ read job, some read ∈ gets t ∧ read.body = .hosted job ∧
      written.version = read.version + 1 ∧ (kind.rotates = true → gets t = [some read]) ∧
      (kind.opens = true → Aimed t job.activeJti))) :
    CallHeld world' kind (t ++ [a]) := by
  have hlanded : ∀ record written, Landed (t ++ [a]) record written →
      Landed t record written ∨ wrote a = some ⟨record, some (some written)⟩ := by
    intro record written hlanded
    unfold Landed at hlanded
    rw [writes_append] at hlanded
    rcases List.mem_append.mp hlanded with hlanded | hlanded
    · exact .inl hlanded
    · obtain ⟨b, hb, heq⟩ := List.mem_filterMap.mp hlanded
      obtain rfl := List.mem_singleton.mp hb
      exact .inr heq
  refine ⟨fun object hobject => ?_, fun jti hjti => ?_, fun record written hl => ?_, fun record written hl jti hjti => ?_,
    fun record written hl hkind => ?_⟩
  · rw [gets_append] at hobject
    rcases List.mem_append.mp hobject with hobject | hobject
    · exact (h.reads object hobject).mono hgrows
    · obtain ⟨b, hb, heq⟩ := List.mem_filterMap.mp hobject
      obtain rfl := List.mem_singleton.mp hb
      exact (hread _ heq).2 object rfl
  · rw [mints_append] at hjti
    rcases List.mem_append.mp hjti with hjti | hjti
    · exact (h.minted jti hjti).trans_le hminted
    · obtain ⟨b, hb, heq⟩ := List.mem_filterMap.mp hjti
      obtain rfl := List.mem_singleton.mp hb
      exact hmint jti heq
  · rcases hlanded record written hl with hl | hl
    · exact ⟨(h.landed record written hl).1.mono hgrows, (h.landed record written hl).2⟩
    · exact (hwrite record written hl).1
  · rw [mints_append]
    rcases hlanded record written hl with hl | hl
    · exact List.mem_append_left _ (h.own record written hl jti hjti)
    · exact List.mem_append_left _ ((hwrite record written hl).2.1 jti hjti)
  · have hreplaced : ∃ read job, some read ∈ gets t ∧ read.body = .hosted job ∧ written.version = read.version + 1 ∧
        (kind.rotates = true → gets t = [some read]) ∧ (kind.opens = true → Aimed t job.activeJti) := by
      rcases hlanded record written hl with hl | hl
      · exact h.replaced record written hl hkind
      · exact (hwrite record written hl).2.2 hkind
    obtain ⟨read, job, hmem, hbody, hversion, honly, haimed⟩ := hreplaced
    refine ⟨read, job, ?_, hbody, hversion, fun hrotates => ?_, fun hopens => (haimed hopens).append _⟩
    · rw [gets_append]
      exact List.mem_append_left _ hmem
    · rw [gets_append, honly hrotates]
      rcases hgot : got a with _ | answer
      · rw [gets, List.filterMap_cons_none hgot]
        rfl
      · have hnone := (hread answer hgot).1 hrotates
        rw [honly hrotates] at hnone
        cases hnone

theorem CallHeld.grow (h : CallHeld world kind t) (hgrows : world.store.uploads <+: world'.store.uploads)
    (hminted : world.minted ≤ world'.minted) : CallHeld world' kind t :=
  ⟨fun object hobject => (h.reads object hobject).mono hgrows, fun jti hjti => (h.minted jti hjti).trans_le hminted,
    fun record written hl => ⟨(h.landed record written hl).1.mono hgrows, (h.landed record written hl).2⟩, h.own, h.replaced⟩

/-- A call is answered: the world has grown, perhaps by one write of what that call had minted and not yet written. -/
theorem Held.answered (h : Held s) (hcall : s.calls[i]? = some call) (hgrows : s.world.store.uploads <+: world'.store.uploads)
    (hminted : s.world.minted ≤ world'.minted) (hheld : CallHeld world' call.kind (call.asked ++ [a]))
    (hfresh : ∀ jti, mintedBy a = some jti → s.world.minted ≤ jti)
    (hnew : ∀ n job, Recorded world'.store n job → Recorded s.world.store n job ∨ n = s.world.store.uploads.length ∧
      job.activeJti ∈ mints call.asked ∧ ¬ Used call.asked job.activeJti ∧ Used (call.asked ++ [a]) job.activeJti)
    (hstanding : Standing world'.store) : Held ⟨world', s.calls.set i ⟨call.kind, call.asked ++ [a], rest⟩⟩ := by
  have hi := (List.getElem?_eq_some_iff.mp hcall).1
  have hset : ∀ k b, (s.calls.set i ⟨call.kind, call.asked ++ [a], rest⟩)[k]? = some b →
      (k = i ∧ b = ⟨call.kind, call.asked ++ [a], rest⟩) ∨ (k ≠ i ∧ s.calls[k]? = some b) := by
    intro k b hb
    by_cases hk : k = i
    · subst hk
      rw [List.getElem?_set_self hi] at hb
      exact .inl ⟨rfl, (Option.some.inj hb).symm⟩
    · rw [List.getElem?_set_ne (Ne.symm hk)] at hb
      exact .inr ⟨hk, hb⟩
  have hmints : ∀ jti ∈ mints (call.asked ++ [a]), jti ∈ mints call.asked ∨ s.world.minted ≤ jti := by
    intro jti hjti
    rw [mints_append] at hjti
    rcases List.mem_append.mp hjti with hjti | hjti
    · exact .inl hjti
    · obtain ⟨b, hb, heq⟩ := List.mem_filterMap.mp hjti
      obtain rfl := List.mem_singleton.mp hb
      exact .inr (hfresh jti heq)
  have howned : ∀ k b, s.calls[k]? = some b → ∀ jti ∈ mints (call.asked ++ [a]), jti ∈ mints b.asked → k = i := by
    intro k b hb jti hjti hjti'
    rcases hmints jti hjti with hjti | hle
    · exact h.owner k i b call hb hcall jti hjti' hjti
    · exact absurd ((h.calls b (List.mem_of_getElem? hb)).minted jti hjti') (not_lt.mpr hle)
  -- a capability on record that the call minted and has not yet written would have another owner
  have hunused : ∀ n job, Recorded s.world.store n job → job.activeJti ∈ mints call.asked →
      Used call.asked job.activeJti := by
    intro n job hjob hmint
    obtain ⟨other, hother, hmint', hused⟩ := h.used n job hjob
    obtain ⟨k, hk⟩ := List.getElem?_of_mem hother
    obtain rfl := h.owner k i other call hk hcall _ hmint' hmint
    obtain rfl := Option.some.inj (hk.symm.trans hcall)
    exact hused
  refine ⟨fun b hb => ?_, fun j k b c hb hc jti hjti hjti' => ?_, fun n job hjob => ?_, fun n m job job' hjob hjob' heq => ?_,
    hstanding⟩
  · rcases List.mem_or_eq_of_mem_set hb with hb | rfl
    · exact (h.calls b hb).grow hgrows hminted
    · exact hheld
  · rcases hset j b hb with ⟨rfl, rfl⟩ | ⟨-, hold⟩ <;> rcases hset k c hc with ⟨rfl, rfl⟩ | ⟨-, hold'⟩
    · rfl
    · exact (howned k c hold' jti hjti hjti').symm
    · exact howned j b hold jti hjti' hjti
    · exact h.owner j k b c hold hold' jti hjti hjti'
  · rcases hnew n job hjob with hjob | ⟨-, hmint, -, hused⟩
    · obtain ⟨other, hother, hmint, hused⟩ := h.used n job hjob
      obtain ⟨k, hk⟩ := List.getElem?_of_mem hother
      by_cases hki : k = i
      · subst hki
        obtain rfl := Option.some.inj (hk.symm.trans hcall)
        refine ⟨_, List.mem_of_getElem? (List.getElem?_set_self hi), ?_, hused.append _⟩
        dsimp only
        rw [mints_append]
        exact List.mem_append_left _ hmint
      · refine ⟨other, List.mem_of_getElem? (i := k) ?_, hmint, hused⟩
        rw [List.getElem?_set_ne (Ne.symm hki)]
        exact hk
    · refine ⟨_, List.mem_of_getElem? (List.getElem?_set_self hi), ?_, hused⟩
      dsimp only
      rw [mints_append]
      exact List.mem_append_left _ hmint
  · rcases hnew n job hjob with hold | ⟨rfl, hmint, hnot, -⟩ <;> rcases hnew m job' hjob' with hold' | ⟨rfl, hmint', hnot', -⟩
    · exact h.once n m job job' hold hold' heq
    · exact absurd (heq ▸ hunused n job hold (heq.symm ▸ hmint')) hnot'
    · exact absurd (heq.symm ▸ hunused m job' hold' (heq ▸ hmint)) hnot
    · rfl

/-- A call is answered something that is no write. -/
theorem Held.plain (h : Held s) (hcall : s.calls[i]? = some call) (hstore : world'.store = s.world.store)
    (hminted : s.world.minted ≤ world'.minted)
    (hread : ∀ answer, got a = some answer → (call.kind.rotates = true → gets call.asked = []) ∧ ∀ object ∈ answer,
      Uploaded etags s.world.store.uploads () object)
    (hmint : ∀ jti, mintedBy a = some jti → s.world.minted ≤ jti ∧ jti < world'.minted)
    (hwrite : ∀ record written, wrote a ≠ some ⟨record, some (some written)⟩) :
    Held ⟨world', s.calls.set i ⟨call.kind, call.asked ++ [a], rest⟩⟩ := by
  have hheld := h.calls call (List.mem_of_getElem? hcall)
  refine h.answered hcall (hstore ▸ List.prefix_rfl) hminted (hheld.later (hstore ▸ List.prefix_rfl) hminted ?_ ?_ ?_)
    (fun jti hjti => (hmint jti hjti).1) (fun n job hjob => .inl (hstore ▸ hjob)) (hstore ▸ h.standing)
  · intro answer hanswer
    rw [hstore]
    exact hread answer hanswer
  · exact fun jti hjti => (hmint jti hjti).2
  · exact fun record written hwrote => absurd hwrote (hwrite record written)

/-- A call is answered a put that did not land. -/
theorem Held.unwritten (h : Held s) (hcall : s.calls[i]? = some call) {etag : Option ε}
    {answer : Except String (Option (JobObject ε))} (hanswer : ∀ written, answer ≠ .ok (some written)) :
    Held ⟨s.world, s.calls.set i ⟨call.kind, call.asked ++ [⟨.put record etag, answer⟩], rest⟩⟩ := by
  refine h.plain hcall rfl le_rfl (fun _ hgot => nomatch hgot) (fun _ hmint => nomatch hmint) fun record' written hwrote => ?_
  rcases answer with message | _ | written'
  · cases hwrote
  · cases hwrote
  · exact hanswer written' rfl

theorem Held.came (h : Held s) (kind : JobCall) (rest : Program (JobOp ε) Unit Unit) :
    Held { s with calls := s.calls ++ [{ kind := kind, rest := rest }] } := by
  have hold : ∀ (k : ℕ) (b : Flight (JobOp ε) JobCall), (s.calls ++ [{ kind := kind, rest := rest }])[k]? = some b →
      s.calls[k]? = some b ∨ b.asked = [] := by
    intro k b hb
    rcases List.mem_append.mp (List.mem_of_getElem? hb) with hmem | hmem
    · rcases lt_or_ge k s.calls.length with hlt | hge
      · rw [List.getElem?_append_left hlt] at hb
        exact .inl hb
      · rw [List.getElem?_append_right hge] at hb
        obtain rfl := List.mem_singleton.mp (List.mem_of_getElem? hb)
        exact .inr rfl
    · obtain rfl := List.mem_singleton.mp hmem
      exact .inr rfl
  refine ⟨fun call hcall => ?_, fun j k a b ha hb jti hjti hjti' => ?_, fun n job hjob => ?_, h.once, h.standing⟩
  · rcases List.mem_append.mp hcall with hcall | hcall
    · exact h.calls call hcall
    · obtain rfl := List.mem_singleton.mp hcall
      exact .nil
  · rcases hold j a ha with ha | ha
    · rcases hold k b hb with hb | hb
      · exact h.owner j k a b ha hb jti hjti hjti'
      · rw [hb] at hjti'
        cases hjti'
    · rw [ha] at hjti
      cases hjti
  · obtain ⟨call, hcall, hused⟩ := h.used n job hjob
    exact ⟨call, List.mem_append_left _ hcall, hused⟩

theorem Standing.last (h : Standing store) {object : JobObject ε} (hobject : store.objects () = some object) :
    object.version + 1 = store.uploads.length := by
  unfold Standing at h
  rw [hobject] at h
  exact h

theorem standing_upload {uploadedAt : ℤ} :
    Standing (store.upload record uploadedAt ()) := by
  unfold Standing
  rw [ObjectStore.upload_objects, ObjectStore.upload_uploads]
  rw [List.length_append]
  rfl

theorem Held.stands (h : Held s) {n : ℕ} (hrecord : Recorded s.world.store n job) (hlast : n + 1 = s.world.store.uploads.length) :
    ∃ object, s.world.store.objects () = some object ∧ object.body = .hosted job := by
  unfold Recorded at hrecord
  rcases hobject : s.world.store.objects () with _ | object
  · have hnone := h.standing
    unfold Standing at hnone
    rw [hobject] at hnone
    rw [hnone] at hlast
    cases hlast
  · have hversion : object.version = n := by
      have := h.standing.last hobject
      omega
    have hsame := (s.world.store.sound () object hobject).1
    rw [hversion, hrecord] at hsame
    exact ⟨object, rfl, (Prod.mk.inj (Option.some.inj hsame)).2.symm⟩

theorem Recorded.mono {store' : ObjectStore etags Unit} {n : ℕ} (h : Recorded store n job)
    (hgrows : store.uploads <+: store'.uploads) : Recorded store' n job := by
  obtain ⟨more, hmore⟩ := hgrows
  unfold Recorded at h ⊢
  rw [← hmore, List.getElem?_append_left (List.getElem?_eq_some_iff.mp h).1]
  exact h

theorem recorded_standing {object : JobObject ε} (hobject : store.objects () = some object) (hbody : object.body = .hosted job) :
    Recorded store object.version job := by
  have hupload := (store.sound () object hobject).1
  rw [hbody] at hupload
  exact hupload

/-- No job object, and no call on it yet. -/
def jobStart (etags : Etags ε DocumentJobRecord) : JobCalls etags := ⟨⟨.empty, 0⟩, []⟩

theorem held_start : Held (jobStart etags) := by
  refine ⟨fun call h => ?_, fun i k a b h => ?_, fun n job h => ?_, fun n m job job' h => ?_, rfl⟩
  · cases h
  · cases h
  · cases h
  · cases h

/-- The job object names the capability, and its job has not run out. -/
def Active (s : JobCalls etags) (now : ℤ) (jti : Jti) : Prop :=
  ∃ object job, s.world.store.objects () = some object ∧ object.body = .hosted job ∧ job.activeJti = jti ∧ now < job.jobExpiresAt

def OneActive (s : JobCalls etags) : Prop := ∀ now jti jti', Active s now jti → Active s now jti' → jti = jti'

theorem oneActive (s : JobCalls etags) : OneActive s := by
  rintro now jti jti' ⟨object, job, hobject, hbody, rfl, -⟩ ⟨object', job', hobject', hbody', rfl, -⟩
  obtain rfl := Option.some.inj (hobject.symm.trans hobject')
  obtain rfl := DocumentJobRecord.hosted.inj (hbody.symm.trans hbody')
  rfl

/-- A renewal or a resolution that went through wrote the version right after the one it had read. -/
def RotatesFresh (s : JobCalls etags) : Prop :=
  ∀ call ∈ s.calls, call.kind.rotates = true → call.rest = .done () → ∃ read job written,
    gets call.asked = [some read] ∧ Landed call.asked (.hosted job) written ∧ written.version = read.version + 1

/-- The invariant, with every call asking and ending as it may. -/
structure Kept (s : JobCalls etags) : Prop where
  held : Held s
  ending : Flights.Ending anyAnswer JobAsks JobEnds s

theorem kept_start : Kept (jobStart etags) := ⟨held_start, fun _ h => by cases h⟩

theorem Kept.rotatesFresh (h : Kept s) : RotatesFresh s := by
  intro call hcall hrotates hdone
  obtain ⟨job, written, hlanded⟩ := h.ending.ended hcall hdone hrotates
  obtain ⟨read, -, -, -, hversion, honly, -⟩ := (h.held.calls call hcall).replaced _ written hlanded (.inr hrotates)
  exact ⟨read, job, written, honly hrotates, hlanded, hversion⟩

variable [DecidableEq ε]

/-- A put lands: on an etag that was read with a capability, right after the version it was read with. -/
theorem Held.write (h : Held s) (hcall : s.calls[i]? = some call) {etag : Option ε} {uploadedAt : ℤ}
    (hasks : JobAsks call.kind call.asked (.put record etag))
    (hallows : ObjectStore.Allows etag (s.world.store.objects ()) = true) {answer : Except String (Option (JobObject ε))}
    (hanswer : answer = .ok (some (s.world.store.next record uploadedAt)) ∨ ∃ message, answer = .error message) :
    Held ⟨{ s.world with store := s.world.store.upload record uploadedAt () },
      s.calls.set i ⟨call.kind, call.asked ++ [⟨.put record etag, answer⟩], rest⟩⟩ := by
  have hheld := h.calls call (List.mem_of_getElem? hcall)
  have hgrows : s.world.store.uploads <+: (s.world.store.upload record uploadedAt ()).uploads := List.prefix_append _ _
  have hlater : CallHeld { s.world with store := s.world.store.upload record uploadedAt () } call.kind
      (call.asked ++ [⟨.put record etag, answer⟩]) := by
    refine hheld.later ?_ ?_ (fun _ hgot => nomatch hgot) (fun _ hmint => nomatch hmint) ?_
    · exact hgrows
    · exact le_rfl
    intro record' written hwrote
    rcases hanswer with rfl | ⟨message, rfl⟩
    · cases hwrote
      refine ⟨⟨ObjectStore.uploaded_next, rfl⟩, fun jti hjti => (hasks.1 jti hjti).1, fun hkind => ?_⟩
      obtain ⟨read, job, hreplacing⟩ := hasks.2 hkind
      rw [hreplacing.named] at hallows
      have hread := hheld.reads read hreplacing.was_read
      obtain ⟨standing, hstands, hbody⟩ := ObjectStore.body_of_allows hread hallows
      -- the object that stands has the capability that was read, which was uploaded once
      have hversion : standing.version = read.version := by
        refine h.once _ _ job job ?_ ?_ rfl
        · unfold Recorded
          rw [(s.world.store.sound () standing hstands).1, hbody, hreplacing.body]
        · unfold Recorded
          rw [hread.1, hreplacing.body]
      refine ⟨read, job, hreplacing.was_read, hreplacing.body, ?_, hreplacing.rotates, hreplacing.opens⟩
      rw [ObjectStore.next_version, ← hversion, h.standing.last hstands]
    · cases hwrote
  refine h.answered hcall hgrows le_rfl hlater (fun _ hmint => nomatch hmint) ?_ standing_upload
  · intro n job hjob
    unfold Recorded at hjob ⊢
    rw [ObjectStore.upload_uploads] at hjob
    rcases lt_or_ge n s.world.store.uploads.length with hlt | hge
    · rw [List.getElem?_append_left hlt] at hjob
      exact .inl hjob
    · rw [List.getElem?_append_right hge] at hjob
      obtain ⟨hn, hrecord⟩ := List.getElem?_eq_some_iff.mp hjob
      rw [List.length_singleton] at hn
      have hn : n = s.world.store.uploads.length := by omega
      subst hn
      simp only [Nat.sub_self, List.getElem_cons_zero, Prod.mk.injEq, true_and] at hrecord
      subst hrecord
      obtain ⟨hmint, hunused⟩ := hasks.1 job.activeJti rfl
      refine .inr ⟨rfl, hmint, hunused, ⟨.hosted job, answer.toOption⟩, ?_, rfl, ?_⟩
      · rw [writes_append]
        exact List.mem_append_right _ (List.mem_singleton.mpr rfl)
      · rcases hanswer with rfl | ⟨message, rfl⟩ <;> exact fun h => nomatch h

theorem Held.step {program : JobCall → Program (JobOp ε) Unit Unit} {label : FlightStep JobCall Outside} (h : Held s)
    (hasking : Flights.Asking anyAnswer JobAsks s) (hstep : Flights.Stepped program jobAnswers s label s') : Held s' := by
  cases hstep with
  | idle => exact h
  | came kind => exact h.came kind _
  | answered i outside call op next hcall hrest =>
    have hasks := hasking.asked hcall hrest
    cases op with
    | get =>
      have hplain : ∀ answer, (∀ object, answer = .ok (some object) → s.world.store.objects () = some object) →
          Held ⟨s.world, s.calls.set i ⟨call.kind, call.asked ++ [⟨.get, answer⟩], next answer⟩⟩ := by
        intro answer hanswer
        refine h.plain hcall rfl le_rfl (fun read hread => ⟨hasks, fun object hobject => ?_⟩) (fun _ hmint => nomatch hmint)
          (fun _ _ hwrote => nomatch hwrote)
        rcases answer with message | read'
        · cases hread
        · cases hread
          exact s.world.store.sound () object (hanswer object (congrArg _ hobject))
      simp only [jobAnswers]
      rcases outside.storage
      · exact hplain _ fun object hobject => Except.ok.inj hobject
      · exact hplain _ nofun
      · exact hplain _ nofun
    | put record etag =>
      simp only [jobAnswers]
      rcases outside.storage
      · rcases s.world.store.put_spec record (1000 * outside.now) () etag with hput | ⟨hallows, hput⟩ <;> rw [hput]
        · exact h.unwritten hcall nofun
        · exact h.write hcall hasks hallows (.inl rfl)
      · exact h.unwritten hcall nofun
      · rcases s.world.store.put_spec record (1000 * outside.now) () etag with hput | ⟨hallows, hput⟩ <;> rw [hput]
        · exact h.unwritten hcall nofun
        · exact h.write hcall hasks hallows (.inr ⟨_, rfl⟩)
    | mintDocumentSessionToken =>
      simp only [jobAnswers]
      rcases outside.mints with message | _
      · exact h.plain hcall rfl le_rfl (fun _ hgot => nomatch hgot) (fun _ hmint => nomatch hmint) (fun _ _ hwrote => nomatch hwrote)
      · refine h.plain hcall rfl (Nat.le_succ _) (fun _ hgot => nomatch hgot) (fun jti hmint => ?_) (fun _ _ hwrote => nomatch hwrote)
        cases hmint
        exact ⟨le_rfl, Nat.lt_succ_self _⟩
    | nowSeconds | verifyDocumentSessionToken | openJobAuth sealedAuth | sealJobAuth subject | resolveSessionWorkspace | find | work =>
      exact h.plain hcall rfl le_rfl (fun _ hgot => nomatch hgot) (fun _ hmint => nomatch hmint) (fun _ _ hwrote => nomatch hwrote)

def jobStep (options : HostedDocumentsOptions) : JobCalls etags → FlightStep JobCall Outside → JobCalls etags :=
  Flights.step (fun kind => (jobProgram options kind).settle) jobAnswers

/-- However the run goes on: what was active, and at a later time is not, is not active at any time after that. -/
def StaysOver (options : HostedDocumentsOptions) (s : JobCalls etags) : Prop :=
  ∀ more last jti t₁ t₂ t₃, t₁ ≤ t₂ → t₂ ≤ t₃ → Active s t₁ jti → ¬ Active (run (jobStep options) s more) t₂ jti →
    ¬ Active (run (jobStep options) (run (jobStep options) s more) last) t₃ jti

/-- A capability that an opening expires, and that another opening registered, stood at its first read of the job. -/
def SparesLater (options : HostedDocumentsOptions) (s : JobCalls etags) : Prop :=
  ∀ i outside a, s.calls[i]? = some a → a.kind.opens = true →
    ∀ object job, s.world.store.objects () = some object → object.body = .hosted job →
      (jobStep options s (.answer i outside)).world.store.objects () ≠ some object →
      (∀ replaced, (jobStep options s (.answer i outside)).world.store.objects () = some replaced → replaced.body.jti? = none) →
      ∀ k b, s.calls[k]? = some b → k ≠ i → b.kind.opens = true → job.activeJti ∈ mints b.asked →
        ∃ first, (gets a.asked).head? = some (some first) ∧ first.version = object.version

variable (options : HostedDocumentsOptions)

theorem Kept.step (h : Kept s) (label : FlightStep JobCall Outside) : Kept (jobStep options s label) := by
  have hstepped := Flights.stepped (fun kind => (jobProgram options kind).settle) jobAnswers s label
  exact ⟨h.held.step h.ending.asking hstepped,
    h.ending.step (fun kind => Program.asks_settle (asks_jobProgram options kind)) (fun _ _ _ _ => trivial) hstepped⟩

theorem Kept.after (h : Kept s) (steps : List (FlightStep JobCall Outside)) : Kept (run (jobStep options) s steps) :=
  invariant_of_run Kept (fun _ label h => h.step options label) h steps

theorem uploads_step (s : JobCalls etags) (label : FlightStep JobCall Outside) :
    s.world.store.uploads <+: (jobStep options s label).world.store.uploads := by
  have hstepped := Flights.stepped (fun kind => (jobProgram options kind).settle) jobAnswers s label
  change Flights.Stepped _ _ _ _ (jobStep options s label) at hstepped
  generalize jobStep options s label = s' at hstepped
  cases hstepped with
  | idle => exact List.prefix_rfl
  | came kind => exact List.prefix_rfl
  | answered i outside call op next hcall hrest =>
    dsimp only
    have hput : ∀ record etag, s.world.store.uploads <+:
        (s.world.store.put record (1000 * outside.now) () etag).2.uploads := by
      intro record etag
      rcases s.world.store.put_spec record (1000 * outside.now) () etag with hput | ⟨-, hput⟩ <;> rw [hput]
      exact List.prefix_append _ _
    cases op with
    | put record etag =>
      simp only [jobAnswers]
      rcases outside.storage
      · exact hput record etag
      · exact List.prefix_rfl
      · exact hput record etag
    | get =>
      simp only [jobAnswers]
      rcases outside.storage <;> exact List.prefix_rfl
    | mintDocumentSessionToken =>
      simp only [jobAnswers]
      rcases outside.mints <;> exact List.prefix_rfl
    | nowSeconds | verifyDocumentSessionToken | openJobAuth sealedAuth | sealJobAuth subject | resolveSessionWorkspace | find | work =>
      exact List.prefix_rfl

theorem uploads_run (s : JobCalls etags) (steps : List (FlightStep JobCall Outside)) :
    s.world.store.uploads <+: (run (jobStep options) s steps).world.store.uploads := by
  refine invariant_of_run (fun s' : JobCalls etags => s.world.store.uploads <+: s'.world.store.uploads) ?_ List.prefix_rfl steps
  exact fun s' label h => h.trans (uploads_step options s' label)

/-- A capability on record twice is the same upload, so nothing was uploaded in between. -/
theorem Kept.staysOver (h : Kept s) : StaysOver options s := by
  rintro more last jti t₁ t₂ t₃ - hle ⟨object, job, hobject, hbody, rfl, -⟩ hover ⟨object', job', hobject', hbody', hjti, hlive⟩
  have hmore := h.after options more
  have hlast := hmore.after options last
  have hgrows := uploads_run options s more
  have hgrows' := uploads_run options (run (jobStep options) s more) last
  have hrecord := recorded_standing hobject hbody
  have hrecord' := recorded_standing hobject' hbody'
  have hversion : object.version = object'.version :=
    hlast.held.once _ _ job job' ((hrecord.mono hgrows).mono hgrows') hrecord' hjti.symm
  obtain rfl : job = job' := by
    have hsame := (hrecord.mono hgrows).mono hgrows'
    unfold Recorded at hsame hrecord'
    rw [hversion, hrecord'] at hsame
    exact (DocumentJobRecord.hosted.inj (Prod.mk.inj (Option.some.inj hsame)).2).symm
  have hlength := h.held.standing.last hobject
  have hlength' := hlast.held.standing.last hobject'
  have hstill : object.version + 1 = (run (jobStep options) s more).world.store.uploads.length := by
    have := hgrows.length_le
    have := hgrows'.length_le
    omega
  obtain ⟨middle, hmiddle, hsame⟩ := hmore.held.stands (hrecord.mono hgrows) hstill
  refine hover ⟨middle, job, hmiddle, hsame, rfl, ?_⟩
  omega

/-- An opening's expiry is aimed: at what its first read found, which another opening may have registered, or at what it
registered, which no other call minted. -/
theorem Kept.sparesLater (h : Kept s) : SparesLater options s := by
  intro i outside a ha hopens object job hobject hbody hchanged hexpired k b hb hk _ hmint
  have hstepped := Flights.stepped (fun kind => (jobProgram options kind).settle) jobAnswers s (.answer i outside)
  change Flights.Stepped _ _ _ _ (jobStep options s (.answer i outside)) at hstepped
  generalize jobStep options s (.answer i outside) = s' at hstepped hchanged hexpired
  cases hstepped with
  | idle => exact absurd hobject hchanged
  | answered i outside call op next hcall hrest =>
    obtain rfl := Option.some.inj (ha.symm.trans hcall)
    have hasks := h.ending.asking.asked hcall hrest
    have hput : ∀ record etag, JobAsks a.kind a.asked (.put record etag) →
        (s.world.store.put record (1000 * outside.now) () etag).2.objects () ≠ some object →
        (∀ replaced, (s.world.store.put record (1000 * outside.now) () etag).2.objects () = some replaced →
          replaced.body.jti? = none) → ∃ first, (gets a.asked).head? = some (some first) ∧ first.version = object.version := by
      intro record etag hasks hchanged hexpired
      rcases s.world.store.put_spec record (1000 * outside.now) () etag with hput | ⟨hallows, hput⟩ <;> rw [hput] at hchanged hexpired
      · exact absurd hobject hchanged
      · have hnone : record.jti? = none := hexpired _ ObjectStore.upload_objects
        obtain ⟨read, job', hreplacing⟩ := hasks.2 (.inl hnone)
        have hheld := h.held.calls a (List.mem_of_getElem? hcall)
        rw [hreplacing.named] at hallows
        obtain ⟨standing, hstands, hsame⟩ := ObjectStore.body_of_allows (hheld.reads read hreplacing.was_read) hallows
        obtain rfl := Option.some.inj (hobject.symm.trans hstands)
        obtain rfl : job = job' := by
          rw [hbody, hreplacing.body] at hsame
          exact DocumentJobRecord.hosted.inj hsame
        rcases hreplacing.opens hopens with ⟨first, firstJob, hfirst, hfirstBody, hjti⟩ | ⟨own, written, hlanded, hjti⟩
        · refine ⟨first, hfirst, h.held.once _ _ firstJob job ?_ (recorded_standing hobject hbody) hjti⟩
          have hupload := (hheld.reads first (List.mem_of_head? hfirst)).1
          rw [hfirstBody] at hupload
          exact hupload
        · have hown := hheld.own _ written hlanded own.activeJti rfl
          rw [hjti] at hown
          exact absurd (h.held.owner k i b a hb ha job.activeJti hmint hown) hk
    dsimp only at hchanged hexpired
    cases op with
    | put record etag =>
      simp only [jobAnswers] at hchanged hexpired
      rcases hstorage : outside.storage <;> rw [hstorage] at hchanged hexpired
      · exact hput record etag hasks hchanged hexpired
      · exact absurd hobject hchanged
      · exact hput record etag hasks hchanged hexpired
    | get =>
      simp only [jobAnswers] at hchanged
      rcases hstorage : outside.storage <;> rw [hstorage] at hchanged <;> exact absurd hobject hchanged
    | mintDocumentSessionToken =>
      simp only [jobAnswers] at hchanged
      rcases hmints : outside.mints <;> rw [hmints] at hchanged <;> exact absurd hobject hchanged
    | nowSeconds | verifyDocumentSessionToken | openJobAuth sealedAuth | sealJobAuth subject | resolveSessionWorkspace | find | work =>
      exact absurd hobject hchanged

/-- In every run of calls on one job: at most one capability is active, what is over stays over, what goes through
replaced the job it had read, and an opening expires no capability registered after it first looked. -/
theorem capability_staysOver (etags : Etags ε DocumentJobRecord) (steps : List (FlightStep JobCall Outside)) :
    OneActive (run (jobStep options) (jobStart etags) steps) ∧
      StaysOver options (run (jobStep options) (jobStart etags) steps) ∧
      RotatesFresh (run (jobStep options) (jobStart etags) steps) ∧
      SparesLater options (run (jobStep options) (jobStart etags) steps) := by
  have hkept : Kept (run (jobStep options) (jobStart etags) steps) := kept_start.after options steps
  exact ⟨oneActive _, hkept.staysOver options, hkept.rotatesFresh, hkept.sparesLater options⟩

/-- An opening registers the capability it minted, and the job lasts an hour. -/
example : Active (run (jobStep {}) (jobStart Etags.upload)
    (.call (.agentOpen ⟨"org", "project", some "workspace", none⟩ (some "user")) :: List.replicate 13 (.answer 0 {}))) 0 0 :=
  ⟨⟨.hosted ⟨"org", "project", "", 3600, 0, ""⟩, 0, 0, 0⟩, ⟨"org", "project", "", 3600, 0, ""⟩, by decide⟩

end Claxedo.Documents
