import Claxedo.Documents.SessionHydration

/-! The base version of a hydrated document names the text its entry's hash is of: a version and a hash that come from the same
call of the port, or from the same durable version, go into an entry together. The exception is a document that is handed over
again: the entry keeps its base version and takes the new text's hash. -/

namespace Claxedo.Documents

open Claxedo.Lib Claxedo.Lib.Attempt

variable {ε : Type} {etags : Etags ε String} {hash : String → String} {slug : String → String} {durable : ObjectStore etags Unit}
  {σ : Hydration etags} {version : ε} {markdown : String} {entry : ManifestEntry ε}

/-- A durable version of that name has contents of that hash. -/
def Backed (hash : String → String) (durable : ObjectStore etags Unit) (version : ε) (digest : String) : Prop :=
  ∃ given, Uploaded etags durable.uploads () given ∧ given.etag = version ∧ hash given.body = digest

theorem Backed.upload {digest : String} (h : Backed hash durable version digest) (markdown : String) :
    Backed hash (durable.upload markdown 0 ()) version digest := by
  obtain ⟨given, huploaded, hetag, hbody⟩ := h
  exact ⟨given, huploaded.mono (List.prefix_append _ _), hetag, hbody⟩

/-- What the manifest and the runtime record is backed, and the durable document is its last upload. -/
structure Hydration.Sound (hash : String → String) (σ : Hydration etags) : Prop where
  manifest : ∀ entry, σ.manifest = some entry → Based hash σ.durable entry
  live : ∀ document, σ.live = some document → Based hash σ.durable document.toManifestEntry
  standing : ∃ standing, σ.durable.objects () = some standing ∧ standing.version + 1 = σ.durable.uploads.length

namespace Hydration.Sound

theorem goings (h : σ.Sound hash) (goings : List Going) : Hydration.Sound hash { σ with goings } := ⟨h.manifest, h.live, h.standing⟩

theorem files (h : σ.Sound hash) (files : String → Option SessionFile) : Hydration.Sound hash { σ with files } :=
  ⟨h.manifest, h.live, h.standing⟩

theorem withManifest (h : σ.Sound hash) {manifest : Option (ManifestEntry ε)}
    (hbased : ∀ entry, manifest = some entry → Based hash σ.durable entry) : Hydration.Sound hash { σ with manifest } :=
  ⟨hbased, h.live, h.standing⟩

theorem withLive (h : σ.Sound hash) {live : Option (HydratedDocument ε)}
    (hbased : ∀ document, live = some document → Based hash σ.durable document.toManifestEntry) :
    Hydration.Sound hash { σ with live } :=
  ⟨h.manifest, hbased, h.standing⟩

theorem upload (h : σ.Sound hash) (markdown : String) :
    Hydration.Sound hash { σ with durable := σ.durable.upload markdown 0 () } where
  manifest entry hentry := Backed.upload (h.manifest entry hentry) markdown
  live document hdocument := Backed.upload (h.live document hdocument) markdown
  standing := ⟨_, ObjectStore.upload_objects, by simp⟩

theorem start (hash : String → String) (markdown : String) : (Hydration.start markdown : Hydration etags).Sound hash :=
  ⟨nofun, nofun, _, ObjectStore.upload_objects, rfl⟩

variable [DecidableEq ε]

/-- A backed entry on which the port would refuse is overtaken. -/
theorem basedOnText (h : σ.Sound hash) : σ.BasedOnText hash where
  text := h.manifest
  refused entry hentry hrefused := by
    obtain ⟨given, huploaded, hetag, hbody⟩ := h.manifest entry hentry
    obtain ⟨standing, hstanding, hversion⟩ := h.standing
    refine ⟨given, standing, huploaded, hetag, hbody, hstanding, ?_⟩
    have hne : given.version ≠ standing.version := by
      intro hsame
      have hfound := σ.durable.sound () standing hstanding
      have hboth := (Prod.mk.inj (Option.some.inj (huploaded.1.symm.trans (hsame ▸ hfound.1)))).2
      have hetags : standing.etag = entry.baseVersion := by
        rw [← hetag, hfound.2, huploaded.2, hsame, hboth]
      rw [hstanding] at hrefused
      exact absurd hetags (of_decide_eq_false hrefused)
    have := huploaded.lt
    omega

end Hydration.Sound

/-! ### The operations -/

variable {F G E : Hydration etags → Prop}

/-- The property looks past how the operations to come go. -/
abbrev Stable (F : Hydration etags → Prop) : Prop := ∀ σ goings, F σ → F { σ with goings }

theorem going_spec (hF : Stable F) : Ensures F going (fun _ => F) E := by
  intro σ h
  unfold going
  rcases σ.goings with _ | ⟨first, rest⟩
  · exact h
  · exact hF σ rest h

theorem operation_spec {effect : Hydration etags → Hydration etags} (hF : Stable F) (heffect : ∀ σ, F σ → G (effect σ))
    (hfails : ∀ σ, F σ → E σ) (hlate : ∀ σ, G σ → E σ) : Ensures F (operation effect) (fun _ => G) E := by
  refine (going_spec hF).bind fun way => ?_
  cases way with
  | succeeds => exact ensures_change heffect
  | fails => exact ensures_throw hfails
  | failsLate left => exact (ensures_change heffect).bind fun _ => ensures_throw hlate

theorem nothing_spec (hF : Stable F) : Ensures F (operation id) (fun _ => F) F :=
  operation_spec hF (fun _ h => h) (fun _ h => h) fun _ h => h

theorem readManifest_spec (hF : Stable F) : Ensures F readManifest (fun manifest σ => F σ ∧ σ.manifest = manifest) F := by
  refine (nothing_spec hF).bind fun _ => ?_
  refine (ensures_state (Q := fun found σ => F σ ∧ σ.manifest = found.manifest) fun σ h => ⟨h, rfl⟩).bind fun found => ?_
  exact ensures_pure fun σ h => h

variable {path : String} {document : HydratedDocument ε} {input : HydrateSessionDocumentInput ε}

theorem pathExists_spec : Ensures F (pathExists path) (fun there σ => F σ ∧ (σ.files path).isSome = there) E := by
  refine (ensures_state (Q := fun found σ => F σ ∧ σ.files = found.files) fun σ h => ⟨h, rfl⟩).bind fun found => ?_
  exact ensures_pure fun σ h => ⟨h.1, by rw [h.2]⟩

theorem readContained_spec (hF : Stable F) :
    Ensures F (readContained path) (fun markdown σ => F σ ∧ σ.files path = some (.text markdown)) F := by
  refine (nothing_spec hF).bind fun _ => ?_
  refine (ensures_state (Q := fun found σ => F σ ∧ σ.files = found.files) fun σ h => ⟨h, rfl⟩).bind fun found => ?_
  rcases hfile : found.files path with _ | file
  · exact ensures_throw fun σ h => h.1
  cases file with
  | text markdown => exact ensures_pure fun σ h => ⟨h.1, by rw [h.2, hfile]⟩
  | unreadable => exact ensures_throw fun σ h => h.1

theorem writeContained_spec {content : String} (hF : Stable F) (hfile : ∀ σ file, F σ → G (setFile path file σ))
    (hfails : ∀ σ, F σ → E σ) (hlate : ∀ σ, G σ → E σ) : Ensures F (writeContained path content) (fun _ => G) E := by
  refine (going_spec hF).bind fun way => ?_
  cases way with
  | succeeds => exact ensures_change fun σ h => hfile σ _ h
  | fails => exact ensures_throw hfails
  | failsLate left => exact (ensures_change fun σ h => hfile σ left h).bind fun _ => ensures_throw hlate

/-! ### The calls -/

/-- What a request finds: the entry's text is the request's where the request takes its place, and without an entry the request's
text has the version it names. -/
structure Handed (hash : String → String) (version : ε) (markdown : String) (σ : Hydration etags) : Prop where
  recorded : σ.recordedText hash markdown = true
  fresh : σ.manifest = none → Backed hash σ.durable version (hash markdown)

theorem recordedText_of_hash (h : ∀ entry, σ.manifest = some entry → hash markdown = entry.lastSyncedHash) :
    σ.recordedText hash markdown = true := by
  unfold Hydration.recordedText
  rcases hmanifest : σ.manifest with _ | entry
  · rfl
  · have hsame := h entry hmanifest
    simp only [hsame, decide_true, Bool.or_true]
    cases entry.state with
    | conflicted => rfl
    | active => split <;> rfl

theorem recordedText_of_file (hmanifest : σ.manifest = some entry) (hfile : σ.files entry.path = some (.text markdown)) :
    σ.recordedText hash markdown = true := by
  unfold Hydration.recordedText
  rw [hmanifest]
  simp only [hfile]
  cases entry.state with
  | conflicted => rfl
  | active =>
    by_cases hsame : hash markdown = entry.lastSyncedHash
    · simp [hsame]
    · simp [hsame]

theorem setLive_spec {live : Option (HydratedDocument ε)} (hlive : ∀ σ, F σ → G { σ with live }) :
    Ensures F (setLive live) (fun _ => G) E := ensures_change hlive

theorem persist_spec (hF : Stable F) (hwrite : ∀ σ, F σ → G { σ with manifest := some document.toManifestEntry })
    (hfails : ∀ σ, F σ → E σ) (hlate : ∀ σ, G σ → E σ) :
    Ensures F (persist document) (fun _ => G) E := by
  refine ((readManifest_spec hF).mono (fun _ h => h) (fun _ _ h => h) hfails).bind fun found => ?_
  exact operation_spec (fun σ goings h => ⟨hF σ goings h.1, h.2⟩) (fun σ h => hwrite σ h.1) (fun σ h => hfails σ h.1) hlate

/-- Sound, and with the document at hand. -/
def Live (hash : String → String) (σ : Hydration etags) : Prop := σ.Sound hash ∧ ∃ document, σ.live = some document

theorem parkConflict_spec {error : String} :
    Ensures (fun σ : Hydration etags => σ.Sound hash ∧ Based hash σ.durable document.toManifestEntry) (parkConflict document error)
      (fun _ σ => σ.Sound hash) fun σ => σ.Sound hash := by
  let parked : HydratedDocument ε := { document with state := .conflicted, error := some error }
  have hpersist : Ensures (fun σ : Hydration etags => σ.Sound hash ∧ Based hash σ.durable document.toManifestEntry) (persist parked)
      (fun _ σ => σ.Sound hash) fun σ => σ.Sound hash ∧ Based hash σ.durable document.toManifestEntry := by
    refine (persist_spec (G := fun σ => σ.Sound hash ∧ Based hash σ.durable document.toManifestEntry)
      (fun σ goings h => ⟨h.1.goings goings, h.2⟩) ?_ (fun _ h => h) fun _ h => h).mono (fun _ h => h) (fun _ _ h => h.1) fun _ h => h
    rintro σ ⟨hsound, hbased⟩
    refine ⟨hsound.withManifest ?_, hbased⟩
    rintro _ ⟨⟩
    exact hbased
  refine (setLive_spec (G := fun σ => σ.Sound hash ∧ Based hash σ.durable document.toManifestEntry) ?_).bind fun _ =>
    hpersist.orElse fun _ => setLive_spec ?_
  · rintro σ ⟨hsound, hbased⟩
    refine ⟨hsound.withLive ?_, hbased⟩
    rintro _ ⟨⟩
    exact hbased
  · rintro σ ⟨hsound, hbased⟩
    refine hsound.withLive ?_
    rintro _ ⟨⟩
    exact hbased

/-- The runtime's edit is the request's text, or is none and the entry's text is. -/
def EditGiven (hash : String → String) (document : HydratedDocument ε) (markdown : String) (σ : Hydration etags) : Prop :=
  ∀ edit, σ.files document.path = some (.text edit) →
    if hash edit = document.lastSyncedHash then σ.recordedText hash markdown = true else hash markdown = hash edit

variable {given : Prop}

/-- The text that goes into the file is backed under the base version of its entry. -/
def Installable (hash : String → String) (input : HydrateSessionDocumentInput ε) (existing : Option (ManifestEntry ε))
    (markdown : String) (σ : Hydration etags) : Prop :=
  σ.Sound hash ∧ Backed hash σ.durable ((existing.map ManifestEntry.baseVersion).getD input.baseVersion) (hash markdown)

theorem install_spec {existing : Option (ManifestEntry ε)} :
    Ensures (Installable hash input existing markdown : Hydration etags → Prop) (install hash slug input existing markdown)
      (fun entry σ => σ.Sound hash ∧ Based hash σ.durable entry) fun σ => σ.Sound hash := by
  have hstable : Stable (Installable hash input existing markdown : Hydration etags → Prop) :=
    fun σ goings h => ⟨h.1.goings goings, h.2⟩
  refine ((nothing_spec hstable).mono (fun _ h => h) (fun _ _ h => h) fun _ h => h.1).bind fun _ => ?_
  refine pathExists_spec.bind fun there => ?_
  refine ensures_ite (fun _ => ensures_throw fun _ h => h.1.1) fun _ => ?_
  refine ((writeContained_spec (G := Installable hash input existing markdown) hstable (fun σ file h => ⟨h.1.files _, h.2⟩)
    (fun _ h => h.1) fun _ h => h.1).of_pre fun _ h => h.1).bind fun _ => ?_
  refine (operation_spec (G := Installable hash input existing markdown) hstable ?_ (fun _ h => h.1) fun _ h => h.1).bind fun _ =>
    ensures_pure fun _ h => h
  rintro σ ⟨hsound, hbacked⟩
  refine ⟨hsound.withManifest ?_, hbacked⟩
  rintro _ ⟨⟩
  exact hbacked

variable [DecidableEq ε]

theorem syncContent_spec (hash : String → String) (hF : Stable F)
    (hupload : ∀ σ, F σ → F { σ with durable := σ.durable.upload markdown 0 () }) :
    Ensures F (syncContent markdown version) (fun version σ => F σ ∧ Backed hash σ.durable version (hash markdown)) F := by
  refine (going_spec hF).bind fun way => ?_
  cases way with
  | fails => exact ensures_throw fun σ h => h
  | succeeds | failsLate _ =>
    refine (ensures_state (Q := fun found σ => F σ ∧ σ = found) fun σ h => ⟨h, rfl⟩).bind fun found => ?_
    rcases found.durable.put_spec markdown 0 () (some version) with hput | ⟨-, hput⟩
    · rw [hput]
      exact ensures_throw fun σ h => h.1
    · rw [hput]
      refine (ensures_change (Q := fun _ σ => F σ ∧ Backed hash σ.durable (found.durable.next markdown 0).etag (hash markdown))
        ?_).bind fun _ => ?_
      · rintro σ ⟨h, rfl⟩
        exact ⟨hupload σ h, _, ObjectStore.uploaded_next, rfl, rfl⟩
      · refine ensures_ite (fun _ => ensures_pure fun σ h => h) fun _ => ensures_throw fun σ h => h.1

theorem syncEdit_spec :
    Ensures (fun σ : Hydration etags => Live hash σ ∧ (given → EditGiven hash document markdown σ ∧
        (σ.manifest = none → Backed hash σ.durable version (hash markdown))))
      (syncEdit hash document) (fun _ σ => σ.Sound hash ∧ (given → Handed hash version markdown σ)) (Live hash) := by
  refine ((readContained_spec ?_).mono (fun _ h => h) (fun _ _ h => h) fun _ h => h.1).bind fun edit => ?_
  · exact fun σ goings h => ⟨⟨h.1.1.goings goings, h.1.2⟩, h.2⟩
  refine ensures_ite (fun hclean => ensures_pure ?_) fun hdirty => ?_
  · rintro σ ⟨⟨hlive, hgiven⟩, hfile⟩
    refine ⟨hlive.1, fun hg => ⟨?_, (hgiven hg).2⟩⟩
    have := (hgiven hg).1 edit hfile
    rwa [if_pos hclean] at this
  -- the edit goes to the port, and what it answers goes into the entry with the edit's hash
  have hport := @syncContent_spec _ _ document.baseVersion edit
    (fun σ : Hydration etags => Live hash σ ∧ σ.files document.path = some (.text edit) ∧ (given → hash markdown = hash edit)) _ hash
    (fun σ goings h => ⟨⟨h.1.1.goings goings, h.1.2⟩, h.2⟩) (fun σ h => ⟨⟨h.1.1.upload edit, h.1.2⟩, h.2⟩)
  refine (hport.mono ?_ (fun _ _ h => h) fun _ h => h.1).bind fun newVersion => ?_
  · rintro σ ⟨⟨hlive, hgiven⟩, hfile⟩
    refine ⟨hlive, hfile, fun hg => ?_⟩
    have := (hgiven hg).1 edit hfile
    rwa [if_neg hdirty] at this
  let synced : HydratedDocument ε := { document with baseVersion := newVersion, lastSyncedHash := hash edit }
  refine (setLive_spec (G := fun σ => Live hash σ ∧ Based hash σ.durable synced.toManifestEntry ∧
    σ.files document.path = some (.text edit) ∧ (given → hash markdown = hash edit)) ?_).bind fun _ => ?_
  · rintro σ ⟨⟨⟨hsound, -⟩, hfile, hsame⟩, hbacked⟩
    refine ⟨⟨hsound.withLive ?_, _, rfl⟩, hbacked, hfile, hsame⟩
    rintro _ ⟨⟩
    exact hbacked
  refine (persist_spec (G := fun σ => Live hash σ ∧ (given → Handed hash version markdown σ)) ?_ ?_ (fun _ h => h.1)
    fun _ h => h.1).mono (fun _ h => h) (fun _ _ h => ⟨h.1.1, h.2⟩) fun _ h => h
  · exact fun σ goings h => ⟨⟨h.1.1.goings goings, h.1.2⟩, h.2⟩
  · rintro σ ⟨⟨hsound, hdocument⟩, hbased, -, hsame⟩
    refine ⟨⟨hsound.withManifest ?_, hdocument⟩, fun hg => ⟨recordedText_of_hash ?_, nofun⟩⟩
    · rintro _ ⟨⟩
      exact hbased
    · rintro _ ⟨⟩
      exact hsame hg

theorem sync_spec {document : HydratedDocument ε} :
    Ensures (fun σ : Hydration etags => Live hash σ ∧ (given → document.state = .active → EditGiven hash document markdown σ ∧
        (σ.manifest = none → Backed hash σ.durable version (hash markdown))))
      (sync hash document) (fun _ σ => σ.Sound hash ∧ (given → Handed hash version markdown σ)) fun σ => σ.Sound hash := by
  refine ensures_ite (fun _ => ensures_throw fun _ h => h.1.1) fun hactive => ?_
  have hstate : document.state = .active := by
    rcases hcase : document.state
    · rfl
    · exact absurd hcase hactive
  refine (syncEdit_spec.of_pre fun σ h => ⟨h.1, fun hg => h.2 hg hstate⟩).orElse fun error => ?_
  refine (ensures_state (Q := fun found σ => Live hash σ ∧ σ = found) fun σ h => ⟨h, rfl⟩).bind fun found => ?_
  refine (Ensures.of_pre parkConflict_spec ?_).bind fun _ => ensures_throw fun σ h => h
  rintro σ ⟨⟨hsound, document', hlive⟩, rfl⟩
  rw [hlive]
  exact ⟨hsound, hsound.live document' hlive⟩

theorem syncHydratedSessionDocuments_spec :
    Ensures (fun σ : Hydration etags => σ.Sound hash ∧ (given →
        (∀ document, σ.live = some document → document.state = .active → EditGiven hash document markdown σ) ∧
        (σ.live = none → σ.recordedText hash markdown = true) ∧ (σ.manifest = none → Backed hash σ.durable version (hash markdown))))
      (syncHydratedSessionDocuments hash) (fun _ σ => σ.Sound hash ∧ (given → Handed hash version markdown σ))
      fun σ => σ.Sound hash := by
  intro σ h
  refine (Ensures.bind (P := fun s => s = σ) (Q := fun found s => found = σ ∧ s = σ) (ensures_state fun _ h => ⟨h, h⟩)
    fun found => ?_) σ rfl
  refine ensures_of_pure fun hfound => ?_
  subst hfound
  rcases hlive : found.live with _ | document
  · refine ensures_pure ?_
    rintro s rfl
    exact ⟨h.1, fun hg => ⟨(h.2 hg).2.1 hlive, (h.2 hg).2.2⟩⟩
  · refine Ensures.of_pre sync_spec ?_
    rintro s rfl
    exact ⟨⟨h.1, document, hlive⟩, fun hg hactive => ⟨(h.2 hg).1 document hlive hactive, (h.2 hg).2.2⟩⟩

theorem reconcile_spec {existing : ManifestEntry ε} :
    Ensures (fun σ : Hydration etags => σ.Sound hash ∧ σ.manifest = some existing ∧ σ.recordedText hash input.markdown = true)
      (reconcile hash input existing)
      (fun found σ => σ.Sound hash ∧ Backed hash σ.durable found.1.baseVersion (hash found.2)) fun σ => σ.Sound hash := by
  have hkept : ∀ σ : Hydration etags, σ.Sound hash → σ.manifest = some existing → hash input.markdown = existing.lastSyncedHash →
      σ.Sound hash ∧ Backed hash σ.durable existing.baseVersion (hash input.markdown) :=
    fun σ hsound hmanifest hsame => ⟨hsound, hsame ▸ hsound.manifest existing hmanifest⟩
  refine ensures_ite (fun _ => ensures_throw fun _ h => h.1) fun hactive => ?_
  have hstate : existing.state = .active := by
    rcases hcase : existing.state
    · rfl
    · exact absurd hcase hactive
  refine pathExists_spec.bind fun there => ?_
  refine ensures_ite (fun hthere => ?_) fun hmissing => ensures_pure ?_
  · refine ((readContained_spec (fun σ goings h => ⟨⟨h.1.1.goings goings, h.1.2⟩, h.2⟩)).mono (fun _ h => h) (fun _ _ h => h)
      fun _ h => h.1.1).bind fun dirty => ?_
    refine ensures_ite (fun hclean => ensures_pure ?_) fun hdirty => ?_
    · rintro σ ⟨⟨⟨hsound, hmanifest, hrecorded⟩, -⟩, hfile⟩
      refine hkept σ hsound hmanifest ?_
      simpa [Hydration.recordedText, hmanifest, hstate, hfile, hclean] using hrecorded
    · have hport := @syncContent_spec _ _ existing.baseVersion dirty
        (fun σ : Hydration etags => σ.Sound hash ∧ Based hash σ.durable existing) _ hash
        (fun σ goings h => ⟨h.1.goings goings, h.2⟩) (fun σ h => ⟨h.1.upload dirty, Backed.upload h.2 dirty⟩)
      have hrefused : ∀ error, Ensures (fun σ : Hydration etags => σ.Sound hash ∧ Based hash σ.durable existing)
          (do writeManifest (some { existing with state := .conflicted })
              throw error : Hydrating etags ε)
          (fun version σ => (σ.Sound hash ∧ Based hash σ.durable existing) ∧ Backed hash σ.durable version (hash dirty))
          fun σ => σ.Sound hash := by
        intro error
        refine (operation_spec (G := fun σ => σ.Sound hash) (fun σ goings h => ⟨h.1.goings goings, h.2⟩) ?_ (fun _ h => h.1)
          fun _ h => h).bind fun _ => ensures_throw fun _ h => h
        rintro σ ⟨hsound, hbased⟩
        refine hsound.withManifest ?_
        rintro _ ⟨⟩
        exact hbased
      refine ((hport.orElse hrefused).of_pre fun σ h => ⟨h.1.1.1, h.1.1.1.manifest existing h.1.1.2.1⟩).bind fun newVersion => ?_
      refine (operation_spec (G := fun σ => σ.Sound hash ∧ Backed hash σ.durable newVersion (hash dirty))
        (fun σ goings h => ⟨⟨h.1.1.goings goings, h.1.2⟩, h.2⟩) ?_ (fun _ h => h.1.1) fun _ h => h.1).bind fun _ =>
          ensures_pure fun _ h => h
      rintro σ ⟨⟨hsound, -⟩, hbacked⟩
      refine ⟨hsound.withManifest ?_, hbacked⟩
      rintro _ ⟨⟩
      exact hbacked
  · rintro σ ⟨⟨hsound, hmanifest, hrecorded⟩, hfile⟩
    refine hkept σ hsound hmanifest ?_
    have hnone : σ.files existing.path = none := by
      rcases hcase : σ.files existing.path with _ | file
      · rfl
      · rw [hcase] at hfile
        exact absurd hfile.symm hmissing
    simpa [Hydration.recordedText, hmanifest, hstate, hnone] using hrecorded

theorem hydrateSessionDocumentNow_spec :
    Ensures (fun σ : Hydration etags => σ.Sound hash ∧
        (∀ document, σ.live = some document → document.state = .active → EditGiven hash document input.markdown σ) ∧
        (σ.live = none → σ.recordedText hash input.markdown = true) ∧
        (σ.manifest = none → Backed hash σ.durable input.baseVersion (hash input.markdown)))
      (hydrateSessionDocumentNow hash slug input) (fun _ σ => σ.Sound hash) fun σ => σ.Sound hash := by
  refine ((nothing_spec fun σ goings h => ⟨h.1.goings goings, h.2⟩).mono (fun _ h => h) (fun _ _ h => h)
    fun _ h => h.1).bind fun _ => ?_
  refine (syncHydratedSessionDocuments_spec.of_pre fun σ h => ⟨h.1, fun _ : True => h.2⟩).bind fun _ => ?_
  refine ((readManifest_spec fun σ goings h => ⟨h.1.goings goings, fun hg => ⟨(h.2 hg).1, (h.2 hg).2⟩⟩).mono (fun _ h => h)
    (fun _ _ h => h) fun _ h => h.1).bind fun existing => ?_
  have hover : Ensures (fun σ : Hydration etags => (σ.Sound hash ∧ (True → Handed hash input.baseVersion input.markdown σ)) ∧
      σ.manifest = existing) (handOver hash slug input existing) (fun entry σ => σ.Sound hash ∧ Based hash σ.durable entry)
      fun σ => σ.Sound hash := by
    rcases existing with _ | existing
    · exact install_spec.of_pre fun σ h => ⟨h.1.1, (h.1.2 trivial).fresh h.2⟩
    · refine (reconcile_spec.of_pre fun σ h => ⟨h.1.1, h.2, (h.1.2 trivial).recorded⟩).bind fun found => ?_
      exact install_spec.of_pre fun σ h => h
  refine hover.bind fun entry => ?_
  refine ((nothing_spec fun σ goings h => ⟨h.1.goings goings, h.2⟩).mono (fun _ h => h) (fun _ _ h => h)
    fun _ h => h.1).bind fun _ => ?_
  refine (setLive_spec (G := fun σ => σ.Sound hash) ?_).bind fun _ => ensures_pure fun _ h => h
  rintro σ ⟨hsound, hbased⟩
  refine hsound.withLive ?_
  rintro _ ⟨⟩
  exact hbased

theorem settle_spec {input : RecoverInput ε} {localMarkdown : String} :
    Ensures (fun σ : Hydration etags => σ.Sound hash ∧ σ.live = none ∧
        Backed hash σ.durable input.remoteVersion (hash input.remoteMarkdown))
      (settle hash input entry localMarkdown)
      (fun entry σ => σ.Sound hash ∧ σ.live = none ∧ Based hash σ.durable entry ∧
        (input.resolution = .useRemote → hash input.remoteMarkdown = entry.lastSyncedHash)) fun σ => σ.Sound hash := by
  unfold settle
  cases hresolution : input.resolution with
  | keepSession =>
    refine ((syncContent_spec hash (F := fun σ : Hydration etags => σ.Sound hash ∧ σ.live = none)
      (fun σ goings h => ⟨h.1.goings goings, h.2⟩) (fun σ h => ⟨h.1.upload localMarkdown, h.2⟩)).mono (fun _ h => ⟨h.1, h.2.1⟩)
      (fun _ _ h => h) fun _ h => h.1).bind fun newVersion => ?_
    exact ensures_pure fun σ h => ⟨h.1.1, h.1.2, h.2, nofun⟩
  | useRemote =>
    have hstable : Stable fun σ : Hydration etags => σ.Sound hash ∧ σ.live = none ∧
        Backed hash σ.durable input.remoteVersion (hash input.remoteMarkdown) := fun σ goings h => ⟨h.1.goings goings, h.2⟩
    have hwrite : ∀ path content, Ensures (fun σ : Hydration etags => σ.Sound hash ∧ σ.live = none ∧
        Backed hash σ.durable input.remoteVersion (hash input.remoteMarkdown)) (writeContained path content)
        (fun _ σ => σ.Sound hash ∧ σ.live = none ∧ Backed hash σ.durable input.remoteVersion (hash input.remoteMarkdown))
        fun σ => σ.Sound hash := fun path content =>
      writeContained_spec hstable (fun σ file h => ⟨h.1.files _, h.2⟩) (fun _ h => h.1) fun _ h => h.1
    refine (hwrite _ _).bind fun _ => (hwrite _ _).bind fun _ => ensures_pure fun σ h => ?_
    exact ⟨h.1, h.2.1, h.2.2, fun _ => rfl⟩

omit [DecidableEq ε] in
/-- The text that a recovery keeps is the one its entry was left with, or an edit of the file. -/
theorem keptMarkdown_spec {input : RecoverInput ε} :
    Ensures (fun σ : Hydration etags => σ.Sound hash ∧ σ.live = none ∧ σ.manifest = some entry ∧
        (input.resolution = .useRemote → hash input.remoteMarkdown = entry.lastSyncedHash))
      (keptMarkdown input)
      (fun markdown σ => σ.Sound hash ∧ σ.live = none ∧ σ.manifest = some entry ∧ σ.recordedText hash markdown = true)
      fun σ => σ.Sound hash := by
  unfold keptMarkdown
  cases hresolution : input.resolution with
  | useRemote =>
    refine ensures_pure fun σ h => ⟨h.1, h.2.1, h.2.2.1, recordedText_of_hash fun found hfound => ?_⟩
    obtain rfl := Option.some.inj (h.2.2.1.symm.trans hfound)
    exact h.2.2.2 rfl
  | keepSession =>
    have hstable : Stable fun σ : Hydration etags => σ.Sound hash ∧ σ.live = none ∧ σ.manifest = some entry :=
      fun σ goings h => ⟨h.1.goings goings, h.2⟩
    refine ((readManifest_spec hstable).mono (fun _ h => ⟨h.1, h.2.1, h.2.2.1⟩) (fun _ _ h => h) fun _ h => h.1).bind fun found => ?_
    rcases found with _ | found
    · exact ensures_throw fun σ h => h.1.1
    · refine (readContained_spec fun σ goings h => ⟨hstable σ goings h.1, h.2⟩).mono (fun _ h => h) (fun markdown σ h => ?_)
        fun _ h => h.1.1
      obtain ⟨⟨⟨hsound, hlive, hmanifest⟩, hfound⟩, hfile⟩ := h
      obtain rfl := Option.some.inj (hmanifest.symm.trans hfound)
      exact ⟨hsound, hlive, hmanifest, recordedText_of_file hmanifest hfile⟩

theorem recoverHydratedSessionDocumentNow_spec {input : RecoverInput ε} :
    Ensures (fun σ : Hydration etags => σ.Sound hash ∧ Backed hash σ.durable input.remoteVersion (hash input.remoteMarkdown))
      (recoverHydratedSessionDocumentNow hash slug input) (fun _ σ => σ.Sound hash) fun σ => σ.Sound hash := by
  have hstable : Stable fun σ : Hydration etags => σ.Sound hash ∧ σ.live = none ∧
      Backed hash σ.durable input.remoteVersion (hash input.remoteMarkdown) := fun σ goings h => ⟨h.1.goings goings, h.2⟩
  refine (setLive_spec (G := fun σ => σ.Sound hash ∧ σ.live = none ∧
    Backed hash σ.durable input.remoteVersion (hash input.remoteMarkdown)) fun σ h => ⟨h.1.withLive nofun, rfl, h.2⟩).bind fun _ => ?_
  refine ((nothing_spec hstable).mono (fun _ h => h) (fun _ _ h => h) fun _ h => h.1).bind fun _ => ?_
  refine ((readManifest_spec hstable).mono (fun _ h => h) (fun _ _ h => h) fun _ h => h.1).bind fun found => ?_
  rcases found with _ | found
  · exact ensures_throw fun σ h => h.1.1
  refine ensures_ite (fun _ => ensures_throw fun σ h => h.1.1) fun _ => ?_
  refine (((readContained_spec hstable).mono (fun _ h => h.1) (fun _ _ h => h.1) fun _ h => h.1)).bind fun localMarkdown => ?_
  refine settle_spec.bind fun settled => ?_
  let active : ManifestEntry ε := { settled with state := .active }
  refine (operation_spec (G := fun σ => σ.Sound hash ∧ σ.live = none ∧ σ.manifest = some active ∧
    (input.resolution = .useRemote → hash input.remoteMarkdown = active.lastSyncedHash))
    (fun σ goings h => ⟨h.1.goings goings, h.2⟩) ?_ (fun _ h => h.1) fun _ h => h.1).bind fun _ => ?_
  · rintro σ ⟨hsound, hlive, hbased, hsame⟩
    refine ⟨hsound.withManifest ?_, hlive, rfl, hsame⟩
    rintro _ ⟨⟩
    exact hbased
  refine keptMarkdown_spec.bind fun markdown => ?_
  refine hydrateSessionDocumentNow_spec.of_pre ?_
  rintro σ ⟨hsound, hlive, hmanifest, hrecorded⟩
  refine ⟨hsound, ?_, fun _ => hrecorded, ?_⟩
  · intro document hdocument
    cases hlive.symm.trans hdocument
  · intro hnone
    cases hmanifest.symm.trans hnone

theorem disposeHydratedSessionDocumentsNow_spec :
    Ensures (fun σ : Hydration etags => σ.Sound hash) (disposeHydratedSessionDocumentsNow hash) (fun _ σ => σ.Sound hash)
      fun σ => σ.Sound hash := by
  refine (ensures_state (Q := fun found (σ : Hydration etags) => σ.Sound hash ∧ σ = found) fun σ h => ⟨h, rfl⟩).bind fun found => ?_
  have hstable : Stable fun σ : Hydration etags => σ.Sound hash := fun σ goings h => h.goings goings
  rcases hlive : found.live with _ | document
  · exact ensures_pure fun σ h => h.1
  suffices hsynced : Ensures _ _ _ (fun σ : Hydration etags => σ.Sound hash) from
    hsynced.orElse fun _ => ensures_pure fun _ h => h
  refine Ensures.bind (Q := fun _ σ => σ.Sound hash) ?_ fun _ => ?_
  · refine (@sync_spec _ _ _ document.baseVersion "" False _ _).mono ?_ (fun _ _ h => h.1) fun _ h => h
    rintro σ ⟨hsound, rfl⟩
    exact ⟨⟨hsound, document, hlive⟩, False.elim⟩
  refine (operation_spec (G := fun σ => σ.Sound hash) hstable (fun σ h => h.files _) (fun _ h => h) fun _ h => h).bind fun _ => ?_
  refine ((readManifest_spec hstable).mono (fun _ h => h) (fun _ _ h => h.1) fun _ h => h).bind fun _ => ?_
  refine (operation_spec (G := fun σ => σ.Sound hash) hstable (fun σ h => h.withManifest (by rintro _ ⟨⟩)) (fun _ h => h)
    fun _ h => h).bind fun _ => ?_
  exact setLive_spec fun σ h => h.withLive nofun

omit [DecidableEq ε] in
theorem reportWatcherError_spec {error : String} :
    Ensures (fun σ : Hydration etags => σ.Sound hash) (reportWatcherError error) (fun _ σ => σ.Sound hash) fun σ => σ.Sound hash := by
  refine (ensures_state (Q := fun found (σ : Hydration etags) => σ.Sound hash ∧ σ = found) fun σ h => ⟨h, rfl⟩).bind fun found => ?_
  rcases hlive : found.live with _ | document
  · exact ensures_pure fun σ h => h.1
  · refine parkConflict_spec.of_pre ?_
    rintro σ ⟨hsound, rfl⟩
    exact ⟨hsound, hsound.live document hlive⟩

/-! ### Every run -/

namespace Hydration

omit [DecidableEq ε] in
theorem Sound.call {α : Type} {goings : List Going} {code : Hydrating etags α} {P : Hydration etags → Prop}
    (hcode : Ensures P code (fun _ σ => σ.Sound hash) fun σ => σ.Sound hash) (h : P { σ with goings }) :
    (σ.call goings code).Sound hash := (hcode.after h).goings []

omit [DecidableEq ε] in
theorem versionAt_eq {n : ℕ} (hversion : σ.versionAt n = some (markdown, version)) :
    σ.durable.uploads[n]? = some ((), markdown) ∧ version = etags.tag n markdown := by
  obtain ⟨⟨key, body⟩, hupload, heq⟩ := Option.map_eq_some_iff.mp hversion
  obtain ⟨rfl, rfl⟩ := Prod.mk.inj heq
  exact ⟨hupload, rfl⟩

omit [DecidableEq ε] in
theorem backed_versionAt {n : ℕ} (hversion : σ.versionAt n = some (markdown, version)) :
    Backed hash σ.durable version (hash markdown) := by
  obtain ⟨hupload, rfl⟩ := versionAt_eq hversion
  exact ⟨⟨markdown, _, n, 0⟩, ⟨hupload, rfl⟩, rfl, rfl⟩

theorem Sound.step (hsound : σ.Sound hash) {event : HydrationEvent} (hgiven : σ.givenAgain hash event = true) :
    (σ.step hash slug event).Sound hash := by
  cases event with
  | hydrate documentId displayName n goings =>
    rcases hversion : σ.versionAt n with _ | ⟨markdown, version⟩
    · simpa only [Hydration.step, hversion] using hsound
    simp only [Hydration.step, hversion]
    simp only [givenAgain, hversion] at hgiven
    refine Sound.call hydrateSessionDocumentNow_spec ⟨hsound.goings goings, ?_, ?_, fun _ => backed_versionAt hversion⟩
    · intro document hlive hactive edit hfile
      change σ.live = some document at hlive
      change σ.files document.path = _ at hfile
      simp only [hlive, hactive, hfile] at hgiven
      split_ifs at hgiven ⊢ with hclean
      · exact hgiven
      · exact of_decide_eq_true hgiven
    · intro hlive
      change σ.live = none at hlive
      simp only [hlive] at hgiven
      exact hgiven
  | synced goings =>
    refine Sound.call (@syncHydratedSessionDocuments_spec _ _ _ (etags.tag 0 "") "" False _ |>.mono
      (fun _ h => h) (fun _ _ h => h.1) fun _ h => h) ⟨hsound.goings goings, False.elim⟩
  | recovered documentId displayName n resolution now goings =>
    rcases hversion : σ.versionAt n with _ | ⟨markdown, version⟩
    · simpa only [Hydration.step, hversion] using hsound
    simp only [Hydration.step, hversion]
    exact Sound.call recoverHydratedSessionDocumentNow_spec ⟨hsound.goings goings, backed_versionAt hversion⟩
  | disposed goings => exact Sound.call disposeHydratedSessionDocumentsNow_spec (hsound.goings goings)
  | watcherFailed error goings => exact Sound.call reportWatcherError_spec (hsound.goings goings)
  | restarted => exact hsound.withLive nofun
  | edited path file => exact hsound.files _
  | changed markdown => exact hsound.upload markdown

end Hydration

/-- Where a document is handed over again only with the text the session last synced, every state has an entry based on its
text. -/
theorem basedOnText_hydrationOf (hash : String → String) (slug : String → String) (markdown : String) (events : List HydrationEvent)
    (h : Meets (Hydration.step hash slug) (fun σ event => σ.givenAgain hash event = true)
      (Hydration.start markdown : Hydration etags) events) :
    (hydrationOf hash slug markdown events : Hydration etags).BasedOnText hash :=
  (invariant_of_meets (Hydration.Sound hash) (fun _ _ hsound hgiven => hsound.step hgiven)
    (Hydration.Sound.start hash markdown) h).basedOnText

/-- An edit that is synced, a change of the durable document, and a second hand-over once the first was disposed. -/
def disposedBetween : List HydrationEvent :=
  [.hydrate "doc" "plan" 0 [], .edited "plan.md" (some (.text "two")), .synced [], .changed "three", .disposed [],
    .hydrate "doc" "plan" 2 []]

theorem basedOnText_disposedBetween :
    (hydrationOf (fun text => text) (fun name => name) "one" disposedBetween : Hydration (Etags.upload : Etags ℕ String)).BasedOnText
      (fun text => text) :=
  basedOnText_hydrationOf _ _ _ _ (by decide +kernel)

/-- The durable document changes, and is handed over again while the session's file is clean. -/
def handedOverAgain : List HydrationEvent := [.hydrate "doc" "plan" 0 [], .changed "two", .hydrate "doc" "plan" 1 []]

/-- The entry has the second text's hash under the first version. -/
theorem second_text_under_first_version :
    ¬ (hydrationOf (fun text => text) (fun name => name) "one" handedOverAgain : Hydration (Etags.upload : Etags ℕ String)).BasedOnText
      (fun text => text) := by
  intro h
  have hentry : (hydrationOf (fun text => text) (fun name => name) "one" handedOverAgain :
      Hydration (Etags.upload : Etags ℕ String)).manifest = some ⟨"doc", "plan.md", 0, "two", .active⟩ := by decide +kernel
  have huploads : (hydrationOf (fun text => text) (fun name => name) "one" handedOverAgain :
      Hydration (Etags.upload : Etags ℕ String)).durable.uploads = [((), "one"), ((), "two")] := by decide +kernel
  obtain ⟨given, ⟨hupload, hetag⟩, hversion, hbody⟩ := h.text _ hentry
  have hfirst : given.version = 0 := hetag.symm.trans hversion
  rw [huploads, hfirst] at hupload
  have hone : "one" = given.body := (Prod.mk.inj (Option.some.inj hupload)).2
  exact absurd (hone.trans hbody) (by decide)

end Claxedo.Documents
