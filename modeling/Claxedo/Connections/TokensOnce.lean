import Claxedo.Connections.Tokens

/-! A refresh token is spent once: what the refreshes keep while none starts from a secret that is no longer stored, and no
credential is stored under a refresh that was answered. -/

namespace Claxedo.Connections

open Claxedo.Lib

def Secret.refreshToken : Secret → Option ℕ
  | .text _ => none
  | .envelope grant => grant.refresh

/-- The refresh holds an answer whose write has yet to take effect. -/
def RefreshStage.unlanded : RefreshStage → Bool
  | answered (.accepted ..) | answered .refused | putting _ false | settingError false => true
  | asking | answered .transient | putting _ true | settingError true | settling _ | settled _ => false

def RefreshStage.over : RefreshStage → Bool
  | settled _ => true
  | _ => false

/-- The token was passed to the provider. -/
def Refresh.passed (refresh : Refresh) : Prop := refresh.stage = .asking ∨ refresh.answer.isSome

/-- The stage is one that the provider's answer leads to. -/
def Fits (answer : Option RefreshAnswer) : RefreshStage → Prop
  | .asking => answer = none
  | .answered a => answer = some a ∧ ∀ access token expiresAt, a = .accepted access token expiresAt → token.isSome
  | .putting credential _ => credential.status = .available ∧ ∃ access token expiresAt,
      answer = some (.accepted access (some token) expiresAt) ∧
      credential.secret.refreshToken = some token
  | .settingError _ => answer = some .refused
  | .settling .refreshed | .settled .refreshed => ∃ access token expiresAt, answer = some (.accepted access token expiresAt)
  | .settling .refused | .settled .refused => answer = some .refused
  | .settling .transient | .settled .transient => answer = some .transient

/-- Every use of a token but the last failed transiently. -/
def SpentOnce (s : TokenService) : Prop :=
  ∀ (i j : ℕ) (before after : Refresh), i < j → s.refreshes[i]? = some before → s.refreshes[j]? = some after →
    before.passed → after.passed → before.token = after.token → before.answer = some .transient

structure TokensKept (s : TokenService) : Prop where
  flight : ∀ (r : ℕ) (refresh : Refresh), s.refreshes[r]? = some refresh → refresh.stage.over = false → s.inflight = some r
  fits : ∀ (r : ℕ) (refresh : Refresh), s.refreshes[r]? = some refresh → Fits refresh.answer refresh.stage
  bound : ∀ (r : ℕ) (refresh : Refresh), s.refreshes[r]? = some refresh → refresh.token < s.issued ∧ refresh.after ≤ s.stored
  unlanded : ∀ (r : ℕ) (refresh : Refresh), s.refreshes[r]? = some refresh → refresh.stage.unlanded → refresh.after = s.stored
  new : ∀ (r : ℕ) (refresh : Refresh) (access : String) (token : ℕ) (expiresAt : Option ℤ), s.refreshes[r]? = some refresh →
    refresh.answer = some (.accepted access (some token) expiresAt) → refresh.stage.unlanded → token < s.issued ∧
      ∀ (r' : ℕ) (other : Refresh), s.refreshes[r']? = some other → other.token ≠ token
  stored : ∀ credential token, s.credential = some credential → credential.secret.refreshToken = some token → token < s.issued
  earlier : ∀ (credential : Credential) (r : ℕ) (refresh : Refresh), s.credential = some credential → credential.status = .available →
    s.refreshes[r]? = some refresh → credential.secret.refreshToken = some refresh.token →
    refresh.answer = none ∨ refresh.answer = some .transient ∨ refresh.stage.unlanded
  once : SpentOnce s
  calls : ∀ (i : ℕ) (landed : Bool), s.calls[i]? ≠ some (.settingError landed)

/-- The refresh token of the credential that is available. -/
def TokenService.storedToken (s : TokenService) : Option ℕ := s.resolveSecret.bind Secret.refreshToken

/-- The provider hands out a new token wherever it accepts one. -/
def TokenService.ProviderTold.handsOut : TokenService.ProviderTold → Bool
  | .accepts _ rotates _ => rotates
  | .refuses | .fails => true

/-- A refresh begins with the stored token alone, is answered with anything but a transient failure under the credential it began
with, with a new token where it is accepted, and no credential is stored between that and its write. -/
def Timely (s : TokenService) : TokenLabel → Prop
  | .resume i now =>
    match s.calls[i]? with
    | some (.read record (.answered (some secret))) =>
      match record.kind, parseEnvelope secret with
      | .oauthToken, some envelope => TokenService.fresh record now = true ∨
          (s.integration.map Integration.refreshes = some true ∧ envelope.refresh.isSome ∧
            (s.inflight = none → s.storedToken = envelope.refresh))
      | _, _ => True
    | _ => True
  | .provide r told => told = .fails ∨ (told.handsOut ∧ ∀ refresh ∈ s.refreshes[r]?, refresh.after = s.stored)
  | .reconnect .. => ∀ refresh ∈ s.refreshes, refresh.stage.unlanded = false
  | _ => True

instance (s : TokenService) (label : TokenLabel) : Decidable (Timely s label) := by
  unfold Timely
  split
  · split
    · split <;> infer_instance
    · infer_instance
  · infer_instance
  · infer_instance
  · infer_instance

section
variable {s : TokenService}

theorem TokensKept.setCalls (h : TokensKept s) {calls : List TokenStage} (hcalls : ∀ (i : ℕ) (landed : Bool),
    calls[i]? ≠ some (.settingError landed)) :
    TokensKept { s with calls := calls } := { h with calls := hcalls }

theorem TokensKept.setCall (h : TokensKept s) {i : ℕ} {stage : TokenStage} (hstage : ∀ landed, stage ≠ .settingError landed) :
    TokensKept (s.setCall i stage) := by
  refine h.setCalls fun j landed hj => ?_
  rw [List.getElem?_set] at hj
  split_ifs at hj with hij
  · exact hstage landed (Option.some.inj hj)
  · exact h.calls j landed hj

theorem TokensKept.fail (h : TokensKept s) (i : ℕ) (failure : TokenFailure) : TokensKept (s.fail i failure) :=
  h.setCall fun _ hh => by cases hh

theorem TokensKept.getLiveToken (h : TokensKept s) : TokensKept s.getLiveToken := by
  refine h.setCalls fun i landed hi => ?_
  rcases Indexed.of_snoc hi with hold | ⟨-, hnew⟩
  · exact h.calls i landed hold
  · split at hnew <;> cases hnew

theorem TokensKept.land (h : TokensKept s) (i : ℕ) (fails : Option Bool) : TokensKept (s.land i fails) := by
  unfold TokenService.land
  split
  · exact h.setCall fun _ hh => by cases hh
  · exact h.setCall fun _ hh => by cases hh
  · next hi => exact absurd hi (h.calls i false)
  · exact h.setCall fun _ hh => by cases hh
  · exact h

theorem TokensKept.moveRefresh (h : TokensKept s) {r : ℕ} {refresh : Refresh} (stage : RefreshStage) (inflight : Option ℕ)
    (hr : s.refreshes[r]? = some refresh)
    (hfits : Fits refresh.answer stage) (hasking : stage ≠ .asking) (hover : refresh.stage.over = false)
    (hunlanded : stage.unlanded → refresh.stage.unlanded)
    (hlanded : refresh.stage.unlanded → stage.unlanded = false → ∀ credential, s.credential = some credential →
        credential.status = .available →
      credential.secret.refreshToken ≠ some refresh.token)
    (hinflight : inflight = s.inflight ∨ stage.over = true) :
    TokensKept { s.setRefresh r stage with inflight := inflight } := by
  have hof : ∀ {r' : ℕ} {other : Refresh}, (s.setRefresh r stage).refreshes[r']? = some other →
      r' = r ∧ other = { refresh with stage := stage } ∨ r' ≠ r ∧ s.refreshes[r']? = some other := by
    intro r' other hother
    obtain ⟨before, hbefore, rfl⟩ := Indexed.of_modify hother
    split_ifs with heq
    · subst heq
      obtain rfl := Option.some.inj (hbefore.symm.trans hr)
      exact .inl ⟨rfl, rfl⟩
    · exact .inr ⟨Ne.symm heq, hbefore⟩
  have hpassed : (({ refresh with stage := stage } : Refresh).passed → refresh.passed) :=
      fun hp => hp.elim (fun hh => absurd hh hasking) .inr
  refine ⟨fun r' other hother ho => ?_, fun r' other hother => ?_, fun r' other hother => ?_, fun r' other hother hu => ?_,
    fun r' other access token expiresAt hother ha hu => ?_, h.stored, fun credential r' other hc hs hother htoken => ?_,
    fun i j before after hij hi hj hp hp' htoken => ?_, h.calls⟩
  · rcases hof hother with ⟨rfl, rfl⟩ | ⟨hne, hold⟩
    · rcases hinflight with rfl | hover'
      · exact h.flight _ refresh hr hover
      · rw [show stage.over = false from ho] at hover'
        cases hover'
    · have hthere := h.flight r' other hold ho
      rw [h.flight r refresh hr hover] at hthere
      exact absurd (Option.some.inj hthere).symm hne
  · rcases hof hother with ⟨rfl, rfl⟩ | ⟨-, hold⟩
    · exact hfits
    · exact h.fits r' other hold
  · rcases hof hother with ⟨rfl, rfl⟩ | ⟨-, hold⟩
    · exact h.bound _ refresh hr
    · exact h.bound r' other hold
  · rcases hof hother with ⟨rfl, rfl⟩ | ⟨-, hold⟩
    · exact h.unlanded _ refresh hr (hunlanded hu)
    · exact h.unlanded r' other hold hu
  · have hnew : token < s.issued ∧ ∀ (r' : ℕ) (other : Refresh), s.refreshes[r']? = some other → other.token ≠ token := by
      rcases hof hother with ⟨rfl, rfl⟩ | ⟨-, hold⟩
      · exact h.new _ refresh access token expiresAt hr ha (hunlanded hu)
      · exact h.new r' other access token expiresAt hold ha hu
    refine ⟨hnew.1, fun r'' other' hother' => ?_⟩
    rcases hof hother' with ⟨rfl, rfl⟩ | ⟨-, hold'⟩
    · exact hnew.2 _ refresh hr
    · exact hnew.2 r'' other' hold'
  · rcases hof hother with ⟨rfl, rfl⟩ | ⟨-, hold⟩
    · rcases h.earlier credential _ refresh hc hs hr htoken with hnone | htransient | hun
      · exact .inl hnone
      · exact .inr (.inl htransient)
      · by_cases hstays : stage.unlanded = true
        · exact .inr (.inr hstays)
        · exact absurd htoken (hlanded hun (by simpa using hstays) credential hc hs)
    · exact h.earlier credential r' other hc hs hold htoken
  · rcases hof hi with ⟨rfl, rfl⟩ | ⟨-, holdi⟩ <;> rcases hof hj with ⟨rfl, rfl⟩ | ⟨-, holdj⟩
    · exact absurd hij (lt_irrefl _)
    · exact h.once _ j refresh after hij hr holdj (hpassed hp) hp' htoken
    · exact h.once i _ before refresh hij holdi hr hp (hpassed hp') htoken
    · exact h.once i j before after hij holdi holdj hp hp' htoken

/-- A credential is stored whose token no refresh has, while no refresh has an answer to write. -/
theorem TokensKept.put (h : TokensKept s) {credential : Credential} {issued : ℕ} (hle : s.issued ≤ issued)
    (hsettled : ∀ (r : ℕ) (refresh : Refresh), s.refreshes[r]? = some refresh → refresh.stage.unlanded = false)
    (htoken : ∀ token, credential.secret.refreshToken = some token → token < issued ∧
      ∀ (r : ℕ) (refresh : Refresh), s.refreshes[r]? = some refresh → refresh.token ≠ token) :
    TokensKept { s.put credential with issued := issued } := by
  refine { h with
    bound := fun r refresh hr => ⟨(h.bound r refresh hr).1.trans_le hle, Nat.le_succ_of_le (h.bound r refresh hr).2⟩
    unlanded := fun r refresh hr hu => ?_
    new := fun r refresh access token expiresAt hr ha hu => ?_
    stored := fun stored token hc ht => ?_
    earlier := fun stored r refresh hc _ hr ht => ?_ }
  · rw [hsettled r refresh hr] at hu
    cases hu
  · rw [hsettled r refresh hr] at hu
    cases hu
  · obtain rfl := Option.some.inj hc
    exact (htoken token ht).1
  · obtain rfl := Option.some.inj hc
    exact absurd rfl ((htoken _ ht).2 r refresh hr)

theorem TokensKept.reconnect (h : TokensKept s) {kind : CredentialKind} {text : String} {refreshes : Bool} {expiresAt : Option ℤ}
    (htimely : Timely s (.reconnect kind text refreshes expiresAt)) : TokensKept (s.reconnect kind text refreshes expiresAt) := by
  have hsettled : ∀ (r : ℕ) (refresh : Refresh), s.refreshes[r]? = some refresh → refresh.stage.unlanded = false := fun r refresh hr =>
    htimely refresh (List.mem_iff_getElem?.mpr ⟨r, hr⟩)
  unfold TokenService.reconnect
  rcases kind with _ | _ <;> dsimp only
  · exact h.put le_rfl hsettled fun token ht => by cases ht
  · refine h.put (Nat.le_succ _) hsettled fun token ht => ?_
    change (if refreshes = true then some s.issued else none) = some token at ht
    split_ifs at ht
    obtain rfl := Option.some.inj ht
    exact ⟨Nat.lt_succ_self _, fun r refresh hr => (h.bound r refresh hr).1.ne⟩

theorem storedToken_eq {token : ℕ} (h : s.storedToken = some token) :
    ∃ credential, s.credential = some credential ∧ credential.status = .available ∧ credential.secret.refreshToken = some token := by
  unfold TokenService.storedToken TokenService.resolveSecret at h
  rcases hc : s.credential with _ | credential <;> rw [hc] at h <;> dsimp only at h
  · cases h
  · split_ifs at h with hs
    · exact ⟨credential, rfl, hs, h⟩
    · cases h

theorem TokensKept.settled (h : TokensKept s) (hnone : s.inflight = none) {r : ℕ} {refresh : Refresh}
    (hr : s.refreshes[r]? = some refresh) :
    refresh.answer ≠ none ∧ refresh.stage.unlanded = false ∧ refresh.stage.over = true := by
  have hfits := h.fits r refresh hr
  have hflight := h.flight r refresh hr
  rcases hstage : refresh.stage with _ | a | ⟨c, landed⟩ | landed | outcome | outcome <;> rw [hstage] at hfits hflight
  case settled =>
    refine ⟨fun hh => ?_, rfl, rfl⟩
    rw [hh] at hfits
    rcases outcome with _ | _ | _
    · obtain ⟨_, _, _, hh⟩ := hfits
      cases hh
    · cases hfits
    · cases hfits
  all_goals
    have hsome := hflight rfl
    rw [hnone] at hsome
    cases hsome

theorem TokensKept.refreshOnce (h : TokensKept s) {token : ℕ} (hnone : s.inflight = none)
    (hrefreshes : s.integration.map Integration.refreshes = some true)
    (hstored : s.storedToken = some token) : TokensKept (s.refreshOnce token) := by
  obtain ⟨credential, hc, hs, ht⟩ := storedToken_eq hstored
  unfold TokenService.refreshOnce
  rw [hrefreshes]
  dsimp only [Option.getD]
  rw [if_pos rfl]
  refine { h with
    flight := fun r refresh hr ho => ?_
    fits := fun r refresh hr => ?_
    bound := fun r refresh hr => ?_
    unlanded := fun r refresh hr hu => ?_
    new := fun r refresh access token' expiresAt hr ha hu => ?_
    earlier := fun stored r refresh hstored' hs' hr htoken => ?_
    once := fun i j before after hij hi hj hp _ htoken => ?_ }
  · rcases Indexed.of_snoc hr with hold | ⟨rfl, -⟩
    · have hover := (h.settled hnone hold).2.2
      rw [ho] at hover
      cases hover
    · rfl
  · rcases Indexed.of_snoc hr with hold | ⟨-, rfl⟩
    · exact h.fits r refresh hold
    · exact rfl
  · rcases Indexed.of_snoc hr with hold | ⟨-, rfl⟩
    · exact h.bound r refresh hold
    · exact ⟨h.stored credential token hc ht, le_rfl⟩
  · rcases Indexed.of_snoc hr with hold | ⟨-, rfl⟩
    · exact h.unlanded r refresh hold hu
    · rfl
  · rcases Indexed.of_snoc hr with hold | ⟨-, rfl⟩
    · rw [(h.settled hnone hold).2.1] at hu
      cases hu
    · cases ha
  · rcases Indexed.of_snoc hr with hold | ⟨-, rfl⟩
    · exact h.earlier stored r refresh hstored' hs' hold htoken
    · exact .inl rfl
  · rcases Indexed.of_snoc hi with holdi | ⟨hlast, -⟩ <;> rcases Indexed.of_snoc hj with holdj | ⟨hlast', rfl⟩
    · rename_i hp'
      exact h.once i j before after hij holdi holdj hp hp' htoken
    · have hsettled := h.settled hnone holdi
      rcases h.earlier credential i before hc hs holdi (ht.trans (congrArg some htoken.symm)) with hh | hh | hh
      · exact absurd hh hsettled.1
      · exact hh
      · rw [hsettled.2.1] at hh
        cases hh
    · have := (List.getElem?_eq_some_iff.mp holdj).1
      omega
    · omega

theorem TokensKept.resume (h : TokensKept s) {i : ℕ} {now : ℤ} (htimely : Timely s (.resume i now)) : TokensKept (s.resume i now) := by
  unfold TokenService.resume
  unfold Timely at htimely
  dsimp only at htimely
  rcases hi : s.calls[i]? with _ | stage
  · exact h
  rw [hi] at htimely
  rcases stage with _ | record | record | ⟨record, secret⟩ | landed | r | _ | secret | answer
  case got =>
    rcases record with (_ | record) | _ | _ <;> dsimp only
    · exact h.fail i _
    · split_ifs
      · exact h.fail i _
      · exact h.fail i _
      · exact h.setCall fun _ hh => by cases hh
    · exact h.fail i _
    · exact h.fail i _
  case read =>
    rcases secret with (_ | secret) | _ | _
    · exact h.fail i _
    · dsimp only at htimely ⊢
      rcases hkind : record.kind with _ | _ <;> rw [hkind] at htimely <;> dsimp only at htimely ⊢
      · split
        · exact h.setCall fun _ hh => by cases hh
        · exact h
      · rcases hparsed : parseEnvelope secret with _ | envelope <;> rw [hparsed] at htimely <;> dsimp only at htimely ⊢
        · exact h.fail i _
        · split_ifs with hfresh
          · exact h.setCall fun _ hh => by cases hh
          · rcases htimely with hh | ⟨hrefreshes, hsome, hstored⟩
            · exact absurd hh hfresh
            · obtain ⟨token, htoken⟩ := Option.isSome_iff_exists.mp hsome
              rw [htoken] at hstored ⊢
              dsimp only
              unfold TokenService.joinRefresh
              rcases hflight : s.inflight with _ | r <;> dsimp only
              · exact (h.refreshOnce hflight hrefreshes (hstored hflight)).setCall fun _ hh => by cases hh
              · exact h.setCall fun _ hh => by cases hh
    · exact h.fail i _
    · exact h.fail i _
  case settingError => exact absurd hi (h.calls i landed)
  case awaiting =>
    dsimp only
    split
    · exact h.setCall fun _ hh => by cases hh
    · exact h.fail i _
    · exact h.fail i _
    · exact h
  case reread =>
    rcases secret with secret | _ | _
    · dsimp only
      split
      · exact h.fail i _
      · exact h.setCall fun _ hh => by cases hh
    · exact h.fail i _
    · exact h.fail i _
  all_goals exact h

theorem TokensKept.provide (h : TokensKept s) {r : ℕ} {told : TokenService.ProviderTold} (htimely : Timely s (.provide r told)) :
    TokensKept (s.provide r told) := by
  unfold TokenService.provide
  rcases hr : s.refreshes[r]? with _ | refresh
  · exact h
  dsimp only
  rcases hstage : refresh.stage with _ | a | ⟨c, landed⟩ | landed | outcome | outcome <;> dsimp only
  case asking =>
    have hflight := h.flight r refresh hr (by rw [hstage]; rfl)
    set answer := s.providerAnswer refresh.token told with hanswer
    have hafter : answer ≠ .transient → refresh.after = s.stored := by
      intro hne
      rcases htimely with rfl | ⟨-, hafter⟩
      · exact absurd rfl hne
      · exact hafter refresh hr
    have hissued : ∀ access token expiresAt, answer = .accepted access token expiresAt → token = some s.issued := by
      intro access token expiresAt heq
      rw [hanswer] at heq
      unfold TokenService.providerAnswer at heq
      split at heq
      · rename_i rotates _
        have hrotates : rotates = true := by
          rcases htimely with hfails | ⟨hhands, -⟩
          · cases hfails
          · exact hhands
        rw [hrotates, if_pos rfl] at heq
        split_ifs at heq
        exact ((RefreshAnswer.accepted.inj heq).2.1).symm
      · cases heq
      · cases heq
    have hof : ∀ {r' : ℕ} {other : Refresh}, (s.refreshes.modify r
        fun refresh => { refresh with answer := some answer, stage := .answered answer })[r']? = some other →
        r' = r ∧ other = { refresh with answer := some answer, stage := .answered answer } ∨
          r' ≠ r ∧ s.refreshes[r']? = some other := by
      intro r' other hother
      obtain ⟨before, hbefore, rfl⟩ := Indexed.of_modify hother
      split_ifs with heq
      · subst heq
        obtain rfl := Option.some.inj (hbefore.symm.trans hr)
        exact .inl ⟨rfl, rfl⟩
      · exact .inr ⟨Ne.symm heq, hbefore⟩
    have hnew : ∀ {r' : ℕ} {other : Refresh}, (s.refreshes.modify r
        fun refresh => { refresh with answer := some answer, stage := .answered answer })[r']? = some other →
        other.token < s.issued := by
      intro r' other hother
      rcases hof hother with ⟨-, rfl⟩ | ⟨-, hold⟩
      · exact (h.bound r refresh hr).1
      · exact (h.bound r' other hold).1
    refine { h with
      flight := fun r' other hother ho => ?_
      fits := fun r' other hother => ?_
      bound := fun r' other hother => ?_
      unlanded := fun r' other hother hu => ?_
      new := fun r' other access token expiresAt hother ha hu => ?_
      stored := fun credential token hc ht => Nat.lt_succ_of_lt (h.stored credential token hc ht)
      earlier := fun credential r' other hc hs hother htoken => ?_
      once := fun i j before after hij hi hj hp hp' htoken => ?_ }
    · rcases hof hother with ⟨rfl, -⟩ | ⟨-, hold⟩
      · exact hflight
      · exact h.flight r' other hold ho
    · rcases hof hother with ⟨-, rfl⟩ | ⟨-, hold⟩
      · exact ⟨rfl, fun access token expiresAt heq => by rw [hissued access token expiresAt heq]; rfl⟩
      · exact h.fits r' other hold
    · refine ⟨Nat.lt_succ_of_lt (hnew hother), ?_⟩
      rcases hof hother with ⟨-, rfl⟩ | ⟨-, hold⟩
      · exact (h.bound r refresh hr).2
      · exact (h.bound r' other hold).2
    · rcases hof hother with ⟨-, rfl⟩ | ⟨-, hold⟩
      · refine hafter fun htransient => ?_
        rw [htransient] at hu
        cases hu
      · exact h.unlanded r' other hold hu
    · rcases hof hother with ⟨-, rfl⟩ | ⟨hne, hold⟩
      · obtain rfl := Option.some.inj (hissued access _ expiresAt (Option.some.inj ha))
        exact ⟨Nat.lt_succ_self _, fun r'' other' hother' => (hnew hother').ne⟩
      · -- the answered refresh is the one under way
        have hthere := h.flight r' other hold (by
          rcases hs : other.stage with _ | _ | _ | _ | _ | _ <;> rw [hs] at hu <;> first | rfl | cases hu)
        rw [hflight] at hthere
        exact absurd (Option.some.inj hthere).symm hne
    · rcases hof hother with ⟨-, rfl⟩ | ⟨-, hold⟩
      · rcases answer with ⟨access, token, expiresAt⟩ | _ | _
        · exact .inr (.inr rfl)
        · exact .inr (.inr rfl)
        · exact .inr (.inl rfl)
      · exact h.earlier credential r' other hc hs hold htoken
    · have hasking : refresh.passed := .inl hstage
      rcases hof hi with ⟨rfl, rfl⟩ | ⟨-, holdi⟩ <;> rcases hof hj with ⟨rfl, rfl⟩ | ⟨-, holdj⟩
      · exact absurd hij (lt_irrefl _)
      · have hh := h.once _ j refresh after hij hr holdj hasking hp' htoken
        have hfits := h.fits _ refresh hr
        rw [hstage] at hfits
        rw [show refresh.answer = none from hfits] at hh
        cases hh
      · exact h.once i _ before refresh hij holdi hr hp hasking htoken
      · exact h.once i j before after hij holdi holdj hp hp' htoken
  all_goals exact h

theorem TokensKept.resumeRefresh (h : TokensKept s) (r : ℕ) : TokensKept (s.resumeRefresh r) := by
  unfold TokenService.resumeRefresh
  rcases hr : s.refreshes[r]? with _ | refresh
  · exact h
  dsimp only
  have hfits := h.fits r refresh hr
  have hsame : ∀ stage, s.setRefresh r stage = { s.setRefresh r stage with inflight := s.inflight } := fun _ => rfl
  rcases hstage : refresh.stage with _ | (⟨access, token, expiresAt⟩ | _ | _) | ⟨c, _ | _⟩ | (_ | _) | outcome | outcome <;>
    rw [hstage] at hfits <;> dsimp only
  · exact h
  · obtain ⟨hanswer, hissued⟩ := hfits
    obtain ⟨number, rfl⟩ := Option.isSome_iff_exists.mp (hissued access token expiresAt rfl)
    rw [hsame]
    exact h.moveRefresh _ _ hr ⟨rfl, access, number, expiresAt, hanswer, rfl⟩ (fun hh => by cases hh) (by rw [hstage]; rfl)
        (fun _ => by rw [hstage]; rfl)
      (fun _ hh => by cases hh) (.inl rfl)
  · rw [hsame]
    exact h.moveRefresh _ _ hr hfits.1 (fun hh => by cases hh) (by rw [hstage]; rfl) (fun _ => by rw [hstage]; rfl)
        (fun _ hh => by cases hh) (.inl rfl)
  · rw [hsame]
    exact h.moveRefresh _ _ hr hfits.1 (fun hh => by cases hh) (by rw [hstage]; rfl) (fun hh => by cases hh)
        (fun hh => by rw [hstage] at hh; cases hh)
      (.inl rfl)
  · exact h
  · rw [hsame]
    obtain ⟨-, access, token, expiresAt, hanswer, -⟩ := hfits
    exact h.moveRefresh _ _ hr ⟨access, some token, expiresAt, hanswer⟩ (fun hh => by cases hh) (by rw [hstage]; rfl)
        (fun hh => by cases hh)
      (fun hh => by rw [hstage] at hh; cases hh) (.inl rfl)
  · exact h
  · rw [hsame]
    exact h.moveRefresh _ _ hr hfits (fun hh => by cases hh) (by rw [hstage]; rfl) (fun hh => by cases hh)
        (fun hh => by rw [hstage] at hh; cases hh)
      (.inl rfl)
  · exact h.moveRefresh _ _ hr (by rcases outcome with _ | _ | _ <;> exact hfits) (fun hh => by cases hh)
      (by rw [hstage]; rfl) (fun hh => by cases hh) (fun hh => by rw [hstage] at hh; cases hh)
      (.inr rfl)
  · exact h

theorem TokensKept.landRefresh (h : TokensKept s) (r : ℕ) : TokensKept (s.landRefresh r) := by
  unfold TokenService.landRefresh
  rcases hr : s.refreshes[r]? with _ | refresh
  · exact h
  dsimp only
  have hfits := h.fits r refresh hr
  have hsame : ∀ (t : TokenService) stage, t.setRefresh r stage = { t.setRefresh r stage with inflight := t.inflight } := fun _ _ => rfl
  rcases hstage : refresh.stage with _ | _ | ⟨c, _ | _⟩ | (_ | _) | _ | _ <;> rw [hstage] at hfits <;> dsimp only
  · exact h
  · exact h
  · have hflight := h.flight r refresh hr (by rw [hstage]; rfl)
    obtain ⟨havailable, access, token, expiresAt, hanswer, htoken⟩ := hfits
    have hnew := h.new r refresh access token expiresAt hr hanswer (by rw [hstage]; rfl)
    -- the credential that was stored gives way to the new one
    have hbare : TokensKept { s with credential := none } :=
      { h with stored := fun _ _ hc => (by cases hc), earlier := fun _ _ _ hc => (by cases hc) }
    have hmoved := hbare.moveRefresh (.putting c true) s.inflight hr ⟨havailable, access, token, expiresAt, hanswer, htoken⟩
      (fun hh => by cases hh) (by rw [hstage]; rfl) (fun hh => by cases hh) (fun _ _ _ hc => by cases hc) (.inl rfl)
    refine hmoved.put le_rfl (fun r' other hother => ?_) fun token' htoken' => ?_
    · obtain ⟨before, hbefore, rfl⟩ := Indexed.of_modify hother
      split_ifs with heq
      · rfl
      · by_contra hun
        have hthere := h.flight r' before hbefore (by
          rcases hs : before.stage with _ | _ | _ | _ | _ | _ <;> rw [hs] at hun <;> first | rfl | exact absurd rfl hun)
        rw [hflight] at hthere
        exact heq (Option.some.inj hthere)
    · obtain rfl := Option.some.inj (htoken.symm.trans htoken')
      refine ⟨hnew.1, fun r' other hother => ?_⟩
      obtain ⟨before, hbefore, rfl⟩ := Indexed.of_modify hother
      split_ifs
      · exact hnew.2 r' before hbefore
      · exact hnew.2 r' before hbefore
  · exact h
  · have herror : TokensKept (s.setStatus .error) := by
      refine { h with stored := fun credential token hc ht => ?_, earlier := fun credential r' other hc hs => ?_ }
      · obtain ⟨before, hbefore, rfl⟩ := Option.map_eq_some_iff.mp hc
        exact h.stored before token hbefore ht
      · obtain ⟨before, hbefore, rfl⟩ := Option.map_eq_some_iff.mp hc
        cases hs
    rw [hsame]
    refine herror.moveRefresh _ _ hr hfits (fun hh => by cases hh) (by rw [hstage]; rfl) (fun hh => by cases hh)
        (fun _ _ credential hc hs => ?_) (.inl rfl)
    obtain ⟨before, hbefore, rfl⟩ := Option.map_eq_some_iff.mp hc
    cases hs
  · exact h
  · exact h
  · exact h

theorem TokensKept.step (h : TokensKept s) {label : TokenLabel} (htimely : Timely s label) : TokensKept (s.step label) := by
  rcases label with _ | ⟨i, fails⟩ | ⟨i, now⟩ | ⟨r, told⟩ | r | r | ⟨kind, text, refreshes, expiresAt⟩
  · exact h.getLiveToken
  · exact h.land i fails
  · exact h.resume htimely
  · exact h.provide htimely
  · exact h.resumeRefresh r
  · exact h.landRefresh r
  · exact h.reconnect htimely

/-- A service as it is made, over what is stored from before. -/
def TokenService.opened (integration : Option Integration) (fields : List (String × String))
    (credential : Option Credential) : TokenService :=
  { integration := integration, fields := fields, credential := credential
    issued := ((credential.bind fun credential => credential.secret.refreshToken).map Nat.succ).getD 0 }

theorem tokensKept_opened (integration : Option Integration) (fields : List (String × String)) (credential : Option Credential) :
    TokensKept (.opened integration fields credential) where
  flight := fun _ _ h => by cases h
  fits := fun _ _ h => by cases h
  bound := fun _ _ h => by cases h
  unlanded := fun _ _ h => by cases h
  new := fun _ _ _ _ _ h => by cases h
  stored := fun credential token hc ht => by
    obtain rfl : _ = some credential := hc
    change token < ((Option.bind (some credential) fun credential => credential.secret.refreshToken).map Nat.succ).getD 0
    rw [Option.bind_some, ht]
    exact Nat.lt_succ_self _
  earlier := fun _ _ _ _ _ h => by cases h
  once := fun _ _ _ _ _ h => by cases h
  calls := fun _ _ h => by cases h

/-- What a step does to the credential: it becomes an error only where a token that was never used was refused, and a refresh's
write leaves a credential that was stored after the refresh began. -/
structure StepSpares (s : TokenService) (label : TokenLabel) : Prop where
  error : ∀ before after, s.credential = some before → before.status ≠ .error → (s.step label).credential = some after →
      after.status = .error →
    ∃ (r : ℕ) (refresh : Refresh), s.refreshes[r]? = some refresh ∧ refresh.answer = some .refused ∧
      ∀ (r' : ℕ) (other : Refresh), s.refreshes[r']? = some other → r' ≠ r → other.passed → other.token = refresh.token →
          other.answer = some .transient
  older : ∀ (r : ℕ) (refresh : Refresh), label = .landRefresh r → s.refreshes[r]? = some refresh → refresh.after < s.stored →
    (s.step label).credential = s.credential

theorem credential_step (s : TokenService) (label : TokenLabel) (hland : ∀ r, label ≠ .landRefresh r)
    (hcalls : ∀ (i : ℕ) (landed : Bool), s.calls[i]? ≠ some (.settingError landed)) :
    (s.step label).credential = s.credential ∨ ∃ credential, (s.step label).credential = some credential ∧
        credential.status = .available := by
  rcases label with _ | ⟨i, fails⟩ | ⟨i, now⟩ | ⟨r, told⟩ | r | r | ⟨kind, text, refreshes, expiresAt⟩
  · exact .inl rfl
  · refine .inl ?_
    unfold TokenService.step TokenService.land
    dsimp only
    split
    · rfl
    · rfl
    · next hi => exact absurd hi (hcalls i false)
    · rfl
    · rfl
  · refine .inl ?_
    unfold TokenService.step TokenService.resume
    dsimp only
    split <;> try rfl
    · split_ifs <;> rfl
    · split
      · split <;> rfl
      · split
        · rfl
        · split_ifs
          · rfl
          · split
            · rfl
            · unfold TokenService.joinRefresh
              split <;> rfl
    · split <;> rfl
    · split <;> rfl
  · refine .inl ?_
    unfold TokenService.step TokenService.provide
    dsimp only
    split
    · rfl
    · split <;> rfl
  · refine .inl ?_
    unfold TokenService.step TokenService.resumeRefresh
    dsimp only
    split
    · rfl
    · split <;> rfl
  · exact absurd rfl (hland r)
  · rcases kind with _ | _
    · exact .inr ⟨_, rfl, rfl⟩
    · exact .inr ⟨_, rfl, rfl⟩

theorem TokensKept.spares (h : TokensKept s) (label : TokenLabel) : StepSpares s label := by
  by_cases hland : ∃ r, label = .landRefresh r
  · obtain ⟨r, rfl⟩ := hland
    refine ⟨fun before after hbefore hne hafter herror => ?_, fun r' refresh hsame hr hlt => ?_⟩
    · change (s.landRefresh r).credential = some after at hafter
      unfold TokenService.landRefresh at hafter
      rcases hr : s.refreshes[r]? with _ | refresh <;> rw [hr] at hafter <;> dsimp only at hafter
      · obtain rfl := Option.some.inj (hbefore.symm.trans hafter)
        exact absurd herror hne
      have hfits := h.fits r refresh hr
      rcases hstage : refresh.stage with _ | _ | ⟨c, _ | _⟩ | (_ | _) | _ | _ <;> rw [hstage] at hfits hafter <;> dsimp only at hafter
      case putting.false =>
        obtain rfl := Option.some.inj hafter
        rw [hfits.1] at herror
        cases herror
      case settingError.false =>
        refine ⟨r, refresh, hr, hfits, fun r' other hother hneq hp htoken => ?_⟩
        have hrefused : refresh.answer = some .refused := hfits
        rcases lt_or_gt_of_ne hneq with hlt | hgt
        · exact h.once r' r other refresh hlt hother hr hp (.inr (by rw [hrefused]; rfl)) htoken
        · have hh := h.once r r' refresh other hgt hr hother (.inr (by rw [hrefused]; rfl)) hp htoken.symm
          rw [hrefused] at hh
          cases hh
      all_goals
        obtain rfl := Option.some.inj (hbefore.symm.trans hafter)
        exact absurd herror hne
    · obtain rfl := TokenLabel.landRefresh.inj hsame
      change (s.landRefresh r).credential = s.credential
      unfold TokenService.landRefresh
      rw [hr]
      dsimp only
      have hunlanded := h.unlanded r refresh hr
      rcases hstage : refresh.stage with _ | _ | ⟨c, _ | _⟩ | (_ | _) | _ | _ <;> rw [hstage] at hunlanded <;> try rfl
      · have := hunlanded rfl
        omega
      · have := hunlanded rfl
        omega
  · refine ⟨fun before after hbefore hne hafter herror => ?_, fun r _ hsame => absurd ⟨r, hsame⟩ hland⟩
    rcases credential_step s label (fun r hh => hland ⟨r, hh⟩) h.calls with hsame | ⟨credential, hsome, havailable⟩
    · rw [hsame, hbefore] at hafter
      obtain rfl := Option.some.inj hafter
      exact absurd herror hne
    · obtain rfl := Option.some.inj (hsome.symm.trans hafter)
      rw [havailable] at herror
      cases herror

end

/-- In a run whose refreshes are timely each token is spent once, an error is the provider's refusal of an unused token, and a
refresh leaves what was stored after it began. -/
theorem tokens_spent_once (integration : Option Integration) (fields : List (String × String)) (credential : Option Credential)
    (labels : List TokenLabel) (label : TokenLabel)
    (h : Meets TokenService.step Timely (.opened integration fields credential) (labels ++ [label])) :
    SpentOnce (run TokenService.step (.opened integration fields credential) (labels ++ [label])) ∧
      StepSpares (run TokenService.step (.opened integration fields credential) labels) label := by
  have hkept : ∀ as : List TokenLabel, Meets TokenService.step Timely (.opened integration fields credential) as →
      TokensKept (run TokenService.step (.opened integration fields credential) as) := fun as has =>
    invariant_of_meets TokensKept (fun _ _ hk htimely => hk.step htimely) (tokensKept_opened integration fields credential) has
  exact ⟨(hkept _ h).once, (hkept _ ((meets_append _ _ _ _ _).mp h).1).spares label⟩

namespace TokenRun

def integration : Integration := ⟨none, true⟩

/-- An expiring grant is stored, and two calls read it. -/
def read : List TokenLabel :=
  [.reconnect .oauthToken "access" true (some 0), .call, .call, .land 0 none, .land 1 none, .resume 0 0, .resume 1 0,
    .land 0 none, .land 1 none]

/-- The first call's refresh, from its start to its end. -/
def refreshed : List TokenLabel :=
  [.resume 0 0, .provide 0 (.accepts "renewed" true none), .resumeRefresh 0, .landRefresh 0, .resumeRefresh 0, .resumeRefresh 0]

end TokenRun

open TokenRun

/-- Both calls go on while the refresh is under way. -/
theorem tokens_spent_once_joined :
    SpentOnce (run TokenService.step (.opened (some integration) [] none) (read ++ [.resume 1 0] ++ refreshed ++ [.resume 1 0])) ∧
      StepSpares (run TokenService.step (.opened (some integration) [] none) (read ++ [.resume 1 0] ++ refreshed)) (.resume 1 0) := by
  have hmeets : Meets TokenService.step Timely (.opened (some integration) [] none)
      (read ++ [.resume 1 0] ++ refreshed ++ [.resume 1 0]) := by
    decide
  have hspent := tokens_spent_once (some integration) [] none (read ++ [.resume 1 0] ++ refreshed) (.resume 1 0) hmeets
  exact ⟨hspent.1, hspent.2⟩

/-- The second call goes on once the refresh is over, with the secret it read before, and the token is passed on again. -/
theorem not_tokens_spent_once_late :
    ¬ SpentOnce (run TokenService.step (.opened (some integration) [] none) (read ++ refreshed ++ [.resume 1 0])) := by
  intro h
  have hanswer := h 0 1 ⟨0, 1, some (.accepted "renewed" (some 1) none), .settled .refreshed⟩ ⟨0, 2, none, .asking⟩ (by decide) (by decide)
    (by decide) (.inr rfl) (.inl rfl) rfl
  cases hanswer

end Claxedo.Connections
