import Konstantin.Tray.Startup

/-!
# What the start of the tray may do

The registration of the daemon is changed from inside the app bundle only, with the
consent of the user or after an answer of another version, and taken away only where the
daemon was found enabled.  The menu comes up only with the lock and after the daemon was
found enabled, and behind a first installation only if that daemon answered with the
version of the bundle.  It does come up where the daemon is no longer enabled by then:
the result of a repair or a refresh is not looked at.
-/

namespace Konstantin
namespace Tray

open Fs Effect Proto

/-- What the tray has learned, from the newest replies.  `enabled`, `registered` and
`unregistered` are about all of them. -/
structure Learned where
  locked : Bool := false
  inBundle : Bool := false
  consent : Bool := false
  admin : Bool := false
  outdated : Bool := false
  connected : Bool := false
  current : Bool := false
  enabled : Bool := false
  registered : Bool := false
  unregistered : Bool := false
  clock : Nat := 0

namespace Learned

variable (bundled : String)

def noteInfo (s : Learned) : Except String AdminResponse → Learned
  | .ok (.daemonInfo version) =>
    { s with current := s.connected && decide (version = bundled)
             outdated := decide (version ≠ bundled) }
  | _ => s

def note (s : Learned) : (o : StartupOp) → o.Reply → Learned
  | .lock, r => { s with locked := match (r : Except String Bool) with
      | .ok locked => locked
      | .error _ => false }
  | .currentExe, _ => { s with inBundle := false }
  | .isFile _, there => { s with inBundle := there }
  | .status .daemon, raw =>
    { s with enabled := s.enabled || decide (ServiceStatus.fromRaw raw = .enabled) }
  | .register .daemon, _ => { s with registered := true, current := false }
  | .unregister .daemon, _ => { s with unregistered := true, current := false }
  | .connect, reachable => { s with connected := reachable }
  | .send .., reply => s.noteInfo bundled reply
  | .currentUserIsAdmin, r => { s with admin := match (r : Except String Bool) with
      | .ok admin => admin
      | .error _ => false }
  | .confirm _, yes => { s with consent := yes }
  | .now, t => { s with clock := t }
  | .sleep duration, _ => { s with clock := s.clock + duration }
  | _, _ => s

def Owed (s : Learned) : StartupOp → Prop
  | .lock => True
  | .register .daemon => s.locked = true ∧ s.inBundle = true ∧
      (s.consent = true ∨ s.outdated = true)
  | .unregister .daemon => s.locked = true ∧ s.inBundle = true ∧ s.enabled = true ∧
      (s.consent = true ∧ s.admin = true ∨ s.outdated = true)
  | .register .agent => s.locked = true ∧ s.inBundle = true
  | .unregister .agent => False
  | .send req _ => s.locked = true ∧ req = .getDaemonInfo
  | .run => s.locked = true ∧ s.enabled = true ∧
      (s.registered = true → s.unregistered = false → s.current = true)
  | .unending => False
  | _ => s.locked = true

/-- The clock does not go back. -/
def Clocked (s : Learned) : (o : StartupOp) → o.Reply → Prop
  | .now, t => s.clock ≤ (t : Nat)
  | _, _ => True

def contract : Contract StartupOp StartupOp.Reply Learned where
  owed := Owed
  expected := Clocked
  note := note bundled

end Learned

open Learned

section

variable {bundled : String} {turns : Nat} {s : Learned}

theorem resolve_meets (h : s.locked = true) :
    BundlePaths.resolve.Meets (contract bundled)
      (fun t r => t = { s with inBundle := t.inBundle } ∧
        ∀ paths, r = .ok paths → paths.source = .bundle → t.inBundle = true) s := by
  refine ⟨h, fun (exe : Except String Path) _ => ?_⟩
  cases exe with
  | error e => exact ⟨rfl, fun paths hpaths => nomatch hpaths⟩
  | ok exe =>
    dsimp only
    split
    · exact ⟨rfl, fun paths hpaths => nomatch hpaths⟩
    · split
      · refine ⟨rfl, fun paths hpaths hsource => ?_⟩
        cases hpaths
        cases hsource
      · refine ⟨h, fun (there : Bool) _ => ⟨rfl, fun paths hpaths hsource => ?_⟩⟩
        cases hpaths
        cases there with
        | true => rfl
        | false => cases hsource

theorem statusOf_agent_meets (h : s.locked = true) :
    (statusOf .agent).Meets (contract bundled) (fun t _ => t = s) s := by
  refine ⟨h, fun (found : Except String Unit) _ => ?_⟩
  cases found with
  | error e => rfl
  | ok _ => exact ⟨h, fun _ _ => rfl⟩

theorem statusOf_daemon_meets (h : s.locked = true) :
    (statusOf .daemon).Meets (contract bundled)
      (fun t r => t = { s with enabled := t.enabled } ∧ (s.enabled = true → t.enabled = true) ∧
        (r = .ok .enabled → t.enabled = true)) s := by
  refine ⟨h, fun (found : Except String Unit) _ => ?_⟩
  cases found with
  | error e => exact ⟨rfl, id, fun hr => nomatch hr⟩
  | ok _ =>
    refine ⟨h, fun (raw : Int) _ => ⟨rfl, fun henabled => ?_, fun hr => ?_⟩⟩
    · show (s.enabled || _) = true
      rw [henabled, Bool.true_or]
    · show (s.enabled || decide (ServiceStatus.fromRaw raw = .enabled)) = true
      rw [Except.ok.inj hr]
      exact Bool.or_true s.enabled

theorem registerFound_agent_meets (h : s.locked = true) (hbundle : s.inBundle = true) :
    (registerFound .agent).Meets (contract bundled) (fun t _ => t = s) s := by
  refine ⟨h, fun (found : Except String Unit) _ => ?_⟩
  cases found with
  | error e => rfl
  | ok _ =>
    refine ⟨⟨h, hbundle⟩, fun (registered : Except String Unit) _ => ?_⟩
    cases registered with
    | ok _ => exact statusOf_agent_meets h
    | error e =>
      refine (statusOf_agent_meets h).bind fun t r ht => ?_
      split
      · exact ht
      · exact ht
      · exact ht

/-- The daemon's registration behind `s`, and what the tray was told of its status. -/
structure Registered (s : Learned) (t : Learned) (r : Except String ServiceStatus) : Prop where
  only : t = { s with
    enabled := t.enabled, registered := t.registered, unregistered := t.unregistered,
    current := t.current }
  enabled : s.enabled = true → t.enabled = true
  told : r = .ok .enabled → t.enabled = true

theorem registerFound_daemon_meets (h : s.locked = true) (hbundle : s.inBundle = true)
    (hagreed : s.consent = true ∨ s.outdated = true) :
    (registerFound .daemon).Meets (contract bundled)
      (fun t r => Registered s t r ∧ t.unregistered = s.unregistered) s := by
  refine ⟨h, fun (found : Except String Unit) _ => ?_⟩
  cases found with
  | error e => exact ⟨⟨rfl, id, fun hr => nomatch hr⟩, rfl⟩
  | ok _ =>
    refine ⟨⟨h, hbundle, hagreed⟩, fun (registered : Except String Unit) _ => ?_⟩
    have hstatus : (statusOf .daemon).Meets (contract bundled) _
        { s with registered := true, current := false } := statusOf_daemon_meets h
    cases registered with
    | ok _ =>
      refine hstatus.mono fun t r ht => ?_
      obtain ⟨heq, henabled, htold⟩ := ht
      rw [heq]
      exact ⟨⟨rfl, henabled, htold⟩, rfl⟩
    | error e =>
      refine hstatus.bind fun t r ht => ?_
      obtain ⟨heq, henabled, htold⟩ := ht
      split
      · rw [heq]
        exact ⟨⟨rfl, henabled, htold⟩, rfl⟩
      · rw [heq]
        exact ⟨⟨rfl, henabled, fun hr => nomatch hr⟩, rfl⟩
      · rw [heq]
        exact ⟨⟨rfl, henabled, fun hr => nomatch hr⟩, rfl⟩

theorem refreshDaemonRegistration_meets (h : s.locked = true) (hbundle : s.inBundle = true)
    (henabled : s.enabled = true)
    (hagreed : s.consent = true ∧ s.admin = true ∨ s.outdated = true) :
    refreshDaemonRegistration.Meets (contract bundled)
      (fun t r => Registered s t r ∧
        (t.registered = true → s.registered = true ∨ t.unregistered = true)) s := by
  refine ⟨h, fun (found : Except String Unit) _ => ?_⟩
  cases found with
  | error e => exact ⟨⟨rfl, id, fun hr => nomatch hr⟩, Or.inl⟩
  | ok _ =>
    refine ⟨⟨h, hbundle, henabled, hagreed⟩, fun (unregistered : Except String Unit) _ => ?_⟩
    cases unregistered with
    | error e => exact ⟨⟨rfl, id, fun hr => nomatch hr⟩, Or.inl⟩
    | ok _ =>
      have hregister : (registerFound .daemon).Meets (contract bundled) _
          { s with unregistered := true, current := false } :=
        registerFound_daemon_meets h hbundle (hagreed.imp_left And.left)
      refine hregister.mono fun t r ht => ?_
      obtain ⟨hregistered, hunregistered⟩ := ht
      exact ⟨⟨hregistered.only, hregistered.enabled, hregistered.told⟩,
        fun _ => Or.inr hunregistered⟩

/-- The daemon was asked, and time has passed. -/
def Probed (s t : Learned) : Prop :=
  t = { s with
    connected := t.connected, current := t.current, outdated := t.outdated, clock := t.clock }

theorem Probed.trans {s t u : Learned} (h : Probed s t) (h' : Probed t u) : Probed s u := by
  cases s
  cases t
  cases u
  simp_all [Probed]

theorem probed_noteInfo (bundled : String) (s : Learned) (reply : Except String AdminResponse) :
    Probed s (s.noteInfo bundled reply) := by
  unfold noteInfo
  split
  · rfl
  · rfl

theorem noteInfo_clock (bundled : String) (s : Learned) (reply : Except String AdminResponse) :
    (s.noteInfo bundled reply).clock = s.clock := by
  unfold noteInfo
  split
  · rfl
  · rfl

/-- The turns that are given are enough where the clock goes on: the deadline is reached
before they are used up. -/
theorem verifyLoop_meets (status : ServiceStatus) {deadline : Nat} (h : s.locked = true)
    (hpos : 0 < turns) (hroom : deadline + retryInterval ≤ s.clock + turns * retryInterval) :
    (verifyLoop bundled status deadline turns).Meets (contract bundled)
      (fun t r => Probed s t ∧ ∀ found, r = .ok found → found = status ∧ t.current = true) s := by
  induction turns generalizing s with
  | zero => cases hpos
  | succ turns ih =>
    have hagain : ∀ u : Learned, Probed s u → s.clock ≤ u.clock →
        Program.Meets (contract bundled)
          (fun t r => Probed s t ∧ ∀ found, r = .ok found → found = status ∧ t.current = true)
          (.ask .now fun (t : Nat) =>
            if deadline ≤ t then .done (.error notExposed)
            else .ask (.sleep retryInterval) fun _ => verifyLoop bundled status deadline turns)
          u := by
      intro u hprobed hclock
      have hlocked : u.locked = true := by
        rw [hprobed]
        exact h
      refine ⟨hlocked, fun (t : Nat) (ht : u.clock ≤ t) => ?_⟩
      dsimp only
      split
      · have hlater : Probed u { u with clock := t } := rfl
        exact ⟨hprobed.trans hlater, fun found hfound => nomatch hfound⟩
      · refine ⟨hlocked, fun _ _ => ?_⟩
        rw [Nat.succ_mul] at hroom
        have hleft : 0 < turns := by
          apply Nat.pos_of_ne_zero
          rintro rfl
          omega
        have hnext : deadline + retryInterval ≤ t + retryInterval + turns * retryInterval := by
          omega
        have hloop : (verifyLoop bundled status deadline turns).Meets (contract bundled) _
            { u with clock := t + retryInterval } := ih hlocked hleft hnext
        have hlater : Probed u { u with clock := t + retryInterval } := rfl
        exact hloop.mono fun _ _ hpost => ⟨(hprobed.trans hlater).trans hpost.1, hpost.2⟩
    refine ⟨h, fun (reachable : Bool) _ => ?_⟩
    cases reachable with
    | false => exact hagain _ rfl (Nat.le_refl _)
    | true =>
      refine ⟨⟨h, rfl⟩, fun (reply : Except String AdminResponse) _ => ?_⟩
      have hconnected : Probed s { s with connected := true } := rfl
      have hturn := hagain _ (hconnected.trans (probed_noteInfo bundled _ reply))
        (Nat.le_of_eq (noteInfo_clock bundled { s with connected := true } reply).symm)
      dsimp only
      split
      · split
        · rename_i hversion
          refine ⟨hconnected.trans rfl, fun found hfound => ⟨(Except.ok.inj hfound).symm, ?_⟩⟩
          show (true && decide _) = true
          rw [Bool.true_and, decide_eq_true hversion]
        · exact hturn
      · exact hturn

theorem verifyEnabledDaemon_meets (status : ServiceStatus) (h : s.locked = true)
    (hturns : 61 ≤ turns) :
    (verifyEnabledDaemon bundled turns status).Meets (contract bundled)
      (fun t r => Probed s t ∧ (r = .ok .enabled → status = .enabled ∧ t.current = true)) s := by
  unfold verifyEnabledDaemon
  split
  · rename_i hne
    exact ⟨rfl, fun hr => absurd (Except.ok.inj hr) hne⟩
  · refine ⟨h, fun (t : Nat) _ => ?_⟩
    have hroom : t + 15 * second + retryInterval ≤ t + turns * retryInterval := by
      unfold second retryInterval
      omega
    have hloop : (verifyLoop bundled status (t + 15 * second) turns).Meets (contract bundled) _
        { s with clock := t } := verifyLoop_meets status h (by omega) hroom
    have hread : Probed s { s with clock := t } := rfl
    refine hloop.mono fun u r hu => ⟨hread.trans hu.1, fun hr => ?_⟩
    obtain ⟨hstatus, hcurrent⟩ := hu.2 _ hr
    exact ⟨hstatus.symm, hcurrent⟩

theorem registerAndVerifyDaemon_meets (h : s.locked = true) (hbundle : s.inBundle = true)
    (hagreed : s.consent = true ∨ s.outdated = true) (hturns : 61 ≤ turns) :
    (registerAndVerifyDaemon bundled turns).Meets (contract bundled)
      (fun t r => t.locked = true ∧
        (r = .ok .enabled → t.enabled = true ∧ t.current = true)) s := by
  refine (registerFound_daemon_meets h hbundle hagreed).bind fun t r ht => ?_
  have hlocked : t.locked = true := by
    rw [ht.1.only]
    exact h
  cases r with
  | error e => exact ⟨hlocked, fun hr => nomatch hr⟩
  | ok status =>
    refine (verifyEnabledDaemon_meets status hlocked hturns).mono fun u r hu => ⟨?_, fun hr => ?_⟩
    · rw [hu.1]
      exact hlocked
    · obtain ⟨rfl, hcurrent⟩ := hu.2 hr
      refine ⟨?_, hcurrent⟩
      rw [hu.1]
      exact ht.1.told rfl

/-- A daemon that is registered again may be left without an answer. -/
theorem refreshAndVerifyDaemon_meets (h : s.locked = true) (hbundle : s.inBundle = true)
    (henabled : s.enabled = true)
    (hagreed : s.consent = true ∧ s.admin = true ∨ s.outdated = true)
    (hfirst : s.registered = false) (hturns : 61 ≤ turns) :
    (refreshAndVerifyDaemon bundled turns).Meets (contract bundled)
      (fun t _ => t.locked = true ∧ t.enabled = true ∧
        (t.registered = true → t.unregistered = true)) s := by
  refine (refreshDaemonRegistration_meets h hbundle henabled hagreed).bind fun t r ht => ?_
  have hpost : t.locked = true ∧ t.enabled = true ∧
      (t.registered = true → t.unregistered = true) := by
    refine ⟨?_, ht.1.enabled henabled, fun hregistered => ?_⟩
    · rw [ht.1.only]
      exact h
    · rcases ht.2 hregistered with hbefore | hunregistered
      · rw [hfirst] at hbefore
        cases hbefore
      · exact hunregistered
  cases r with
  | error e => exact hpost
  | ok status =>
    refine (verifyEnabledDaemon_meets status hpost.1 hturns).mono fun u r hu => ?_
    rw [hu.1]
    exact hpost

/-- The menu may come up. -/
structure Showable (s : Learned) : Prop where
  locked : s.locked = true
  enabled : s.enabled = true
  answered : s.registered = true → s.unregistered = false → s.current = true

theorem approvalNeeded_meets (h : s.locked = true) :
    approvalNeeded.Meets (contract bundled) (fun t _ => t = s) s :=
  ⟨h, fun _ _ => ⟨h, fun _ _ => rfl⟩⟩

theorem settle_meets (attention failed couldNot : String) (status : Except String ServiceStatus)
    (h : s.locked = true) :
    (settle attention failed couldNot status).Meets (contract bundled)
      (fun t r => t = s ∧ (r = true → status = .ok .enabled)) s := by
  cases status with
  | error e => exact ⟨h, fun _ _ => ⟨rfl, fun hr => nomatch hr⟩⟩
  | ok status =>
    cases status with
    | enabled => exact ⟨rfl, fun _ => rfl⟩
    | requiresApproval =>
      refine (approvalNeeded_meets h).bind fun t _ ht => ?_
      exact ⟨ht, fun hr => nomatch hr⟩
    | notRegistered => exact ⟨h, fun _ _ => ⟨rfl, fun hr => nomatch hr⟩⟩
    | notFound => exact ⟨h, fun _ _ => ⟨rfl, fun hr => nomatch hr⟩⟩
    | unknown raw => exact ⟨h, fun _ _ => ⟨rfl, fun hr => nomatch hr⟩⟩

theorem runSmappserviceInstall_meets (h : s.locked = true) (hbundle : s.inBundle = true)
    (hagreed : s.consent = true ∨ s.outdated = true) (hturns : 61 ≤ turns) :
    (runSmappserviceInstall bundled turns).Meets (contract bundled)
      (fun t r => r = true → Showable t) s := by
  refine (registerAndVerifyDaemon_meets h hbundle hagreed hturns).bind fun t status ht => ?_
  refine (settle_meets _ _ _ status ht.1).mono fun u r hu hr => ?_
  obtain ⟨henabled, hcurrent⟩ := ht.2 (hu.2 hr)
  rw [hu.1]
  exact ⟨ht.1, henabled, fun _ _ => hcurrent⟩

theorem runSmappserviceRepair_meets (h : s.locked = true) (hbundle : s.inBundle = true)
    (henabled : s.enabled = true)
    (hagreed : s.consent = true ∧ s.admin = true ∨ s.outdated = true)
    (hfirst : s.registered = false) (hturns : 61 ≤ turns) :
    (runSmappserviceRepair bundled turns).Meets (contract bundled) (fun t _ => Showable t) s := by
  refine (refreshAndVerifyDaemon_meets h hbundle henabled hagreed hfirst hturns).bind
    fun t status ht => ?_
  refine (settle_meets _ _ _ status ht.1).mono fun u r hu => ?_
  rw [hu.1]
  refine ⟨ht.1, ht.2.1, fun hregistered hunregistered => ?_⟩
  rw [ht.2.2 hregistered] at hunregistered
  cases hunregistered

/-- The work is done with the consent of the user and inside the bundle only. -/
theorem withConsent_meets (q : Question) (outsideBundle : String)
    {work : StartupProgram Bool} {post : Learned → Bool → Prop} (h : s.locked = true)
    (hrefused : ∀ consent inBundle, post { s with consent := consent, inBundle := inBundle } false)
    (hwork : work.Meets (contract bundled) post { s with consent := true, inBundle := true }) :
    (withConsent q outsideBundle work).Meets (contract bundled) post s := by
  refine ⟨h, fun (yes : Bool) _ => ?_⟩
  cases yes with
  | false => exact hrefused false s.inBundle
  | true =>
    have hresolve : BundlePaths.resolve.Meets (contract bundled) _ { s with consent := true } :=
      resolve_meets h
    refine hresolve.bind fun t paths ht => ?_
    obtain ⟨hrest, hbundle⟩ := ht
    have hlocked : t.locked = true := by
      rw [hrest]
      exact h
    have hcancelled : post t false := by
      rw [hrest]
      exact hrefused true t.inBundle
    cases paths with
    | error e => exact ⟨hlocked, fun _ _ => hcancelled⟩
    | ok paths =>
      dsimp only
      split
      · exact ⟨hlocked, fun _ _ => hcancelled⟩
      · rename_i hsource
        rw [hrest, hbundle paths rfl (Decidable.not_not.mp hsource)]
        exact hwork

theorem runFirstLaunchInstall_meets (h : s.locked = true) (hturns : 61 ≤ turns) :
    (runFirstLaunchInstall bundled turns).Meets (contract bundled)
      (fun t r => r = true → Showable t) s := by
  apply withConsent_meets _ _ h
  · intro consent inBundle hr
    cases hr
  · exact runSmappserviceInstall_meets h rfl (Or.inl rfl) hturns

theorem runAdminControlRepair_meets (h : s.locked = true) (henabled : s.enabled = true)
    (hadmin : s.admin = true) (hfirst : s.registered = false) (hturns : 61 ≤ turns) :
    (runAdminControlRepair bundled turns).Meets (contract bundled) (fun t _ => Showable t) s := by
  apply withConsent_meets _ _ h
  · intro consent inBundle
    refine ⟨h, henabled, fun hregistered => ?_⟩
    cases hfirst.symm.trans hregistered
  · exact runSmappserviceRepair_meets h rfl henabled (Or.inl ⟨rfl, hadmin⟩) hfirst hturns

theorem maybeRunAdminControlRepair_meets (h : s.locked = true) (henabled : s.enabled = true)
    (hfirst : s.registered = false) (hturns : 61 ≤ turns) :
    (maybeRunAdminControlRepair bundled turns).Meets (contract bundled) (fun t _ => Showable t)
      s := by
  refine (statusOf_daemon_meets h).bind fun t status ht => ?_
  obtain ⟨hrest, hstill, -⟩ := ht
  have hlocked : t.locked = true := by
    rw [hrest]
    exact h
  have hfirst : t.registered = false := by
    rw [hrest]
    exact hfirst
  have hshowable : ∀ admin, Showable { t with admin := admin } := by
    intro admin
    refine ⟨hlocked, hstill henabled, fun hregistered => ?_⟩
    cases hfirst.symm.trans hregistered
  split
  · refine (approvalNeeded_meets hlocked).mono fun u _ hu => ?_
    rw [hu]
    exact hshowable t.admin
  · refine ⟨hlocked, fun (admin : Except String Bool) _ => ?_⟩
    cases admin with
    | error e => exact hshowable false
    | ok admin =>
      cases admin with
      | false => exact hshowable false
      | true =>
        have hrepair : (runAdminControlRepair bundled turns).Meets (contract bundled) _
            { t with admin := true } :=
          runAdminControlRepair_meets hlocked (hstill henabled) rfl hfirst hturns
        exact hrepair.bind fun u _ hu => hu
  · exact hshowable t.admin

theorem maybeRefreshDaemonVersion_meets (h : s.locked = true) (henabled : s.enabled = true)
    (hfirst : s.registered = false) (hturns : 61 ≤ turns) :
    (maybeRefreshDaemonVersion bundled turns).Meets (contract bundled) (fun t _ => Showable t)
      s := by
  refine ⟨⟨h, rfl⟩, fun (reply : Except String AdminResponse) _ => ?_⟩
  have hprobed := probed_noteInfo bundled s reply
  have hshowable : ∀ t : Learned, t.locked = s.locked → t.enabled = s.enabled →
      t.registered = s.registered → Showable t := by
    intro t hl he hr
    refine ⟨hl.trans h, he.trans henabled, fun hregistered => ?_⟩
    rw [hr, hfirst] at hregistered
    cases hregistered
  have hdone : Showable (s.noteInfo bundled reply) := by
    apply hshowable
    · rw [hprobed]
    · rw [hprobed]
    · rw [hprobed]
  dsimp only
  split
  · rename_i running _
    split
    · exact hdone
    · rename_i hother
      have houtdated : (s.noteInfo bundled (.ok (.daemonInfo running))).outdated = true :=
        decide_eq_true hother
      have hlocked := hdone.locked
      refine (resolve_meets hlocked).bind fun t paths ht => ?_
      obtain ⟨hrest, hbundle⟩ := ht
      have ht : Showable t := by
        rw [hrest]
        apply hshowable
        · rfl
        · rfl
        · rfl
      cases paths with
      | error e => exact ht
      | ok paths =>
        dsimp only
        split
        · exact ht
        · rename_i hsource
          have houtdated : t.outdated = true := by
            rw [hrest]
            exact houtdated
          have hfirst : t.registered = false := by
            rw [hrest, hprobed]
            exact hfirst
          refine (runSmappserviceRepair_meets ht.locked
            (hbundle paths rfl (Decidable.not_not.mp hsource)) ht.enabled (Or.inr houtdated)
            hfirst hturns).bind fun u _ hu => hu
  · exact hdone

theorem ensureUserAgent_meets (h : s.locked = true) (hbundle : s.inBundle = true) :
    ensureUserAgent.Meets (contract bundled) (fun t _ => t = s) s := by
  have hregistered : ensureAgentRegistered.Meets (contract bundled) (fun t _ => t = s) s := by
    refine (statusOf_agent_meets h).bind fun t status ht => ?_
    rw [ht]
    split
    · rfl
    · rfl
    · rfl
    · exact registerFound_agent_meets h hbundle
  refine hregistered.bind fun t status ht => ?_
  rw [ht]
  split
  · exact ⟨h, fun _ _ => ⟨h, fun _ _ => rfl⟩⟩
  · rfl
  · exact ⟨h, fun _ _ => rfl⟩

theorem showMenu_meets (h : Showable s) :
    showMenu.Meets (contract bundled) (fun _ _ => True) s := by
  refine (resolve_meets h.locked).bind fun t paths ht => ?_
  obtain ⟨hrest, hbundle⟩ := ht
  have ht : Showable t := by
    rw [hrest]
    exact ⟨h.locked, h.enabled, h.answered⟩
  have howed : Owed t .run := ⟨ht.locked, ht.enabled, ht.answered⟩
  split
  · refine (ensureUserAgent_meets ht.locked (hbundle _ rfl rfl)).bind fun u _ hu => ?_
    rw [hu]
    exact ⟨howed, fun _ _ => trivial⟩
  · exact ⟨howed, fun _ _ => trivial⟩

theorem controlAttempts_meets (h : s.locked = true) (left : Nat) :
    (controlAttempts left).Meets (contract bundled) (fun t _ => Probed s t) s := by
  induction left generalizing s with
  | zero => rfl
  | succ left ih =>
    refine ⟨⟨h, rfl⟩, fun (reply : Except String AdminResponse) _ => ?_⟩
    have hprobed := probed_noteInfo bundled s reply
    have hlocked : (s.noteInfo bundled reply).locked = true := by
      rw [hprobed]
      exact h
    dsimp only
    split
    · exact hprobed
    · exact hprobed
    · split
      · exact hprobed
      · refine ⟨hlocked, fun _ _ => ?_⟩
        have hattempts : (controlAttempts left).Meets (contract bundled) _
            { s.noteInfo bundled reply with
              clock := (s.noteInfo bundled reply).clock + retryInterval } := ih hlocked
        refine hattempts.mono fun t _ ht => Probed.trans ?_ ht
        exact hprobed.trans rfl

def DaemonLifecycleState.isEnabled : DaemonLifecycleState → Bool
  | notRegistered => false
  | requiresApproval => false
  | _ => true

theorem classifyDaemonLifecycle_isEnabled {status : ServiceStatus} {socket admin : Bool}
    (h : (classifyDaemonLifecycle status socket admin).isEnabled = true) : status = .enabled := by
  cases status with
  | enabled => rfl
  | _ => cases h

theorem daemonLifecycleState_meets (h : s.locked = true) :
    daemonLifecycleState.Meets (contract bundled)
      (fun t r => t.locked = true ∧ t.registered = s.registered ∧
        ∀ state, r = .ok state → state.isEnabled = true → t.enabled = true) s := by
  refine (statusOf_daemon_meets h).bind fun t status ht => ?_
  obtain ⟨hrest, -, htold⟩ := ht
  have hlocked : t.locked = true := by
    rw [hrest]
    exact h
  have hregistered : t.registered = s.registered := by
    rw [hrest]
  cases status with
  | error e => exact ⟨hlocked, hregistered, fun state hstate => nomatch hstate⟩
  | ok status =>
    have hclassified : ∀ (socket admin : Bool) (state : DaemonLifecycleState),
        (.ok (classifyDaemonLifecycle status socket admin) : Except String _) = .ok state →
        state.isEnabled = true → t.enabled = true := by
      intro socket admin state hstate henabled
      rw [← Except.ok.inj hstate] at henabled
      apply htold
      rw [classifyDaemonLifecycle_isEnabled henabled]
    refine ⟨hlocked, fun (socketReachable : Bool) _ => ?_⟩
    cases socketReachable with
    | false => exact ⟨hlocked, hregistered, hclassified false false⟩
    | true =>
      have hattempts : adminControlReachable.Meets (contract bundled) _
          { t with connected := true } :=
        controlAttempts_meets (s := { t with connected := true }) hlocked 3
      refine hattempts.bind fun u adminReachable hu => ?_
      rw [hu]
      exact ⟨hlocked, hregistered, hclassified true adminReachable⟩

theorem startTray_meets (hturns : 61 ≤ turns) :
    (startTray bundled turns).Meets (contract bundled) (fun _ _ => True) {} := by
  refine ⟨trivial, fun (locked : Except String Bool) _ => ?_⟩
  cases locked with
  | error e => trivial
  | ok locked =>
    cases locked with
    | false => trivial
    | true =>
      have hresolve : BundlePaths.resolve.Meets (contract bundled) _
          { ({} : Learned) with locked := true } := resolve_meets rfl
      refine hresolve.bind fun s _ hs => ?_
      have hlocked : s.locked = true := by
        rw [hs.1]
      have hfirst : s.registered = false := by
        rw [hs.1]
      refine (daemonLifecycleState_meets hlocked).bind fun t state ht => ?_
      obtain ⟨hlocked, hregistered, henabled⟩ := ht
      have hfirst : t.registered = false := hregistered.trans hfirst
      split
      · refine (maybeRefreshDaemonVersion_meets hlocked (henabled _ rfl rfl) hfirst hturns).bind
          fun u _ hu => showMenu_meets hu
      · refine showMenu_meets ⟨hlocked, henabled _ rfl rfl, fun hr => ?_⟩
        cases hfirst.symm.trans hr
      · exact (maybeRunAdminControlRepair_meets hlocked (henabled _ rfl rfl) hfirst hturns).bind
          fun u _ hu => showMenu_meets hu
      · refine (runFirstLaunchInstall_meets hlocked hturns).bind fun u installed hu => ?_
        cases installed with
        | false => trivial
        | true => exact showMenu_meets (hu rfl)

/-- At each operation that the start of the tray comes to, it may ask it. -/
theorem startTray_owes (bundled : String) (turns : Nat) (hturns : 61 ≤ turns)
    (tr : List (Sigma StartupOp.Reply)) (o : StartupOp)
    (k : o.Reply → StartupProgram (Except String Unit))
    (h : (startTray bundled turns).Reaches tr (.ask o k))
    (hclock : (contract bundled).Expected {} tr) :
    Owed ((contract bundled).noted {} tr) o :=
  ((startTray_meets hturns).rest h hclock).1

/-- A first launch from the bundle: the daemon is registered with the consent of the user,
and answers at the second turn. -/
def firstLaunch : List (Sigma StartupOp.Reply) :=
  let contents : Path := ⟨true, [.normal "Konstantin.app", .normal "Contents"], .plain⟩
  let exe := joined (joined contents "MacOS") "konstantin-tray"
  let daemon := joined (joined contents "Resources") "screentimed"
  [⟨.lock, Except.ok true⟩, ⟨.currentExe, Except.ok exe⟩, ⟨.isFile daemon, true⟩,
    ⟨.service .daemon, Except.ok ()⟩, ⟨.status .daemon, (0 : Int)⟩, ⟨.connect, false⟩,
    ⟨.confirm setUpQuestion, true⟩, ⟨.currentExe, Except.ok exe⟩, ⟨.isFile daemon, true⟩,
    ⟨.service .daemon, Except.ok ()⟩, ⟨.register .daemon, Except.ok ()⟩,
    ⟨.service .daemon, Except.ok ()⟩, ⟨.status .daemon, (1 : Int)⟩, ⟨.now, (5 : Nat)⟩,
    ⟨.connect, false⟩, ⟨.now, (6 : Nat)⟩, ⟨.sleep retryInterval, ()⟩, ⟨.connect, true⟩,
    ⟨.send .getDaemonInfo second, Except.ok (.daemonInfo "1.0")⟩,
    ⟨.currentExe, Except.ok exe⟩, ⟨.isFile daemon, true⟩,
    ⟨.service .agent, Except.ok ()⟩, ⟨.status .agent, (1 : Int)⟩]

theorem startTray_owes_answer : ((contract "1.0").noted {} firstLaunch).current = true := by
  have hreaches : (startTray "1.0" 61).Reaches firstLaunch
      (.ask .run fun _ => .done (.ok ())) := by
    iterate 23 apply Program.Reaches.next
    exact .here _
  have hclock : (contract "1.0").Expected {} firstLaunch := by
    simp [Contract.Expected, firstLaunch, contract, Clocked, note]
  exact (startTray_owes "1.0" 61 (Nat.le_refl _) firstLaunch .run _ hreaches hclock).2.2 rfl rfl

end

end Tray
end Konstantin
