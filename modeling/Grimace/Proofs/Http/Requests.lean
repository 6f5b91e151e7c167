import Grimace.Http.Service
import Grimace.Proofs.Session.Dispatch
import Grimace.Proofs.Wire.Report

/-!
# Grimace.Proofs.Http.Requests

What a request can do to a service, said once.

* `Service.Deed` lists it: answer and leave everything as it is, hand out the backlog, save, run
  a command of the user, or put a frame to the selected profile;
* `Service.deed_handle` — every request does one of these, whatever the service holds, and puts
  a frame to the profile only if it posts one (`Request.PostsFrame`);
* `Service.serve`, `Service.responses` — requests one after the other.
-/

namespace Grimace

/-- A command that puts no frame to a profile does the same with every dispatcher. -/
theorem Session.step_of_not_isFrame {π σ : Type} (lang : RuleLanguage π) (d e : Dispatcher σ)
    (s : Session π σ) {c : Command} (h : c.isFrame = false) :
    s.step lang d c = s.step lang e c := by
  cases c with
  | evaluate p m | frame p f => contradiction
  | _ => rfl

namespace Http

/-- The request posts a frame, in a form that is accepted. -/
structure Request.PostsFrame (r : Request) (f : DetectorFrame) : Prop where
  method : r.method = "POST"
  route : Route.of? r.uri = some .frame
  body : Service.bodyOf DetectorFrame.ofDraft r = .ok f

/-- Who reads the response reads this report in it, and no other. -/
structure Response.Shows (response : Response) (report : FrameReport) : Prop where
  status : response.status = 200
  body : ∀ other : FrameReport, response.body = some other.toJson ↔ other = report

theorem Response.shows_toJson (report : FrameReport) (published : List Action) :
    Shows ⟨200, some report.toJson, published⟩ report where
  status := rfl
  body other := by
    simp only [Option.some.injEq, FrameReport.toJson_injective.eq_iff]
    exact eq_comm

namespace Service

/-! ## Frames -/

/-- What a frame makes of the profiles of a service. -/
def frameResult (s : Service) (f : DetectorFrame) : FrameResult Condition (List Action) :=
  s.profiles.evaluateReading .expressions s.dispatcher [] s.profiles.selection.toNat (.ok f)

/-- A frame is answered with its report, and what failed goes to the backlog. -/
theorem command_frame (s : Service) (f : DetectorFrame) :
    s.command (.frame none (.ok f)) =
      (⟨200, some (s.frameResult f).report.toJson, (s.frameResult f).actuator⟩,
        { s with
          profiles := (s.frameResult f).set
          backlog := s.backlog.reportAll (s.frameResult f).reports }) :=
  rfl

theorem handle_of_postsFrame (s : Service) {r : Request} {f : DetectorFrame}
    (h : r.PostsFrame f) : s.handle r = s.command (.frame none (.ok f)) := by
  simp only [handle, h.route, handleAs, act?, h.method, h.body]
  rfl

/-! ## Deeds -/

/-- What a request can do, as it does it to a service.  A frame that is put to the selected
profile is one of `posts`. -/
inductive Deed (posts : DetectorFrame → Prop) : (Service → Response × Service) → Prop where
  | answers (reply : Service → Response) (h : ∀ s, (reply s).published = []) :
    Deed posts fun s => (reply s, s)
  | takes : Deed posts takeReports
  | saves : Deed posts save
  | commands (c : Command) (h : c.isFrame = false) : Deed posts fun s => s.command c
  | evaluates (f : DetectorFrame) (h : posts f) :
    Deed posts fun s => s.command (.frame none (.ok f))
  /-- Any of these, with an answer that lacks its body. -/
  | bodiless {deed : Service → Response × Service} (h : Deed posts deed) :
    Deed posts fun s => ({ (deed s).1 with body := none }, (deed s).2)

/-- A deed, unless the request is refused before it touches the service. -/
def Attempt (posts : DetectorFrame → Prop)
    (attempt : Service → Except Response (Response × Service)) : Prop :=
  (∃ refusal, refusal.published = [] ∧ ∀ s, attempt s = .error refusal) ∨
    ∃ deed, Deed posts deed ∧ ∀ s, attempt s = .ok (deed s)

/-- An attempt, if there is one at all. -/
def Offers (posts : DetectorFrame → Prop)
    (act : Service → Option (Except Response (Response × Service))) : Prop :=
  (∀ s, act s = none) ∨ ∃ attempt, Attempt posts attempt ∧ ∀ s, act s = some (attempt s)

section

variable {posts : DetectorFrame → Prop} (r : Request)

theorem attempt_ok {deed : Service → Response × Service} (h : Deed posts deed) :
    Attempt posts fun s => .ok (deed s) :=
  .inr ⟨deed, h, fun _ => rfl⟩

/-- What is read off a request is read before the service is touched. -/
theorem attempt_bind {α : Type} {x : Except Response α}
    (hx : ∀ refusal, x = .error refusal → refusal.published = [])
    {attempt : α → Service → Except Response (Response × Service)}
    (h : ∀ a, x = .ok a → Attempt posts (attempt a)) :
    Attempt posts fun s => x >>= fun a => attempt a s := by
  cases x with
  | error refusal => exact .inl ⟨refusal, hx refusal rfl, fun _ => rfl⟩
  | ok a => exact h a rfl

theorem published_of_bodyOf_eq_error {α : Type} {decode : Json.Decoder α} {refusal : Response}
    (h : bodyOf decode r = .error refusal) : refusal.published = [] := by
  unfold bodyOf at h
  grind [bare]

theorem published_of_indexOf_eq_error {part : String} {refusal : Response}
    (h : indexOf part = .error refusal) : refusal.published = [] := by
  unfold indexOf at h
  grind [bare]

theorem offers_some {attempt : Service → Except Response (Response × Service)}
    (h : Attempt posts attempt) : Offers posts fun s => some (attempt s) :=
  .inr ⟨attempt, h, fun _ => rfl⟩

theorem offers_if {p : Prop} [Decidable p]
    {attempt : Service → Except Response (Response × Service)} (h : p → Attempt posts attempt) :
    Offers posts fun s => if p then some (attempt s) else none := by
  by_cases hp : p
  · simp only [if_pos hp]
    exact offers_some (h hp)
  · simp only [if_neg hp]
    exact .inl fun _ => rfl

/-- A method of a resource does one of the deeds, if the resource has it. -/
theorem offers_act? (method : String) (route : Route)
    (hframe : ∀ f, method = "POST" → route = .frame →
      bodyOf DetectorFrame.ofDraft r = .ok f → posts f) :
    Offers posts fun s => act? s r method route := by
  have hbody {α : Type} (decode : Json.Decoder α) :=
    fun refusal => @published_of_bodyOf_eq_error r α decode refusal
  have hindex (part : String) := fun refusal => @published_of_indexOf_eq_error part refusal
  unfold act?
  cases route with
  | health | state => exact offers_if fun _ => attempt_ok (.answers _ fun _ => rfl)
  | selectedProfile => exact offers_if fun _ => attempt_ok (.commands .removeSelected rfl)
  | selection =>
      exact offers_if fun _ => attempt_bind (hbody newSelection) fun index _ =>
        attempt_ok (.commands (.select index) rfl)
  | bindings p =>
      exact offers_if fun _ => attempt_bind (hindex p) fun p _ =>
        attempt_ok (.commands (.createBinding p) rfl)
  | diagnostics => exact offers_if fun _ => attempt_ok .takes
  | save => exact offers_if fun _ => attempt_ok .saves
  | stream => exact offers_if fun _ => .inl ⟨bare 400, rfl, fun _ => rfl⟩
  | frame =>
      exact offers_if fun hpost => attempt_bind (hbody DetectorFrame.ofDraft) fun f hf =>
        attempt_ok (.evaluates f (hframe f hpost rfl hf))
  | profiles =>
      by_cases hget : method = "GET"
      · subst hget
        exact offers_some (attempt_ok (.answers _ fun _ => rfl))
      · by_cases hpost : method = "POST"
        · subst hpost
          exact offers_some <| attempt_bind (hbody newProfile) fun name _ =>
            attempt_ok (.commands (.createProfile (name.getD "")) rfl)
        · exact .inl fun s => by simp
  | binding p b =>
      by_cases hput : method = "PUT"
      · subst hput
        exact offers_some <| attempt_bind (hindex p) fun p _ => attempt_bind (hindex b) fun b _ =>
          attempt_bind (hbody BindingEdit.ofDraft) fun e _ =>
            attempt_ok (.commands (.edit p b e) rfl)
      · by_cases hdelete : method = "DELETE"
        · subst hdelete
          exact offers_some <| attempt_bind (hindex p) fun p _ =>
            attempt_bind (hindex b) fun b _ => attempt_ok (.commands (.removeBinding p b) rfl)
        · exact .inl fun s => by simp

theorem deed_handleAs (method : String) (route : Route)
    (hframe : ∀ f, method = "POST" → route = .frame →
      bodyOf DetectorFrame.ofDraft r = .ok f → posts f) :
    Deed posts fun s => s.handleAs r method route := by
  unfold handleAs
  rcases offers_act? r method route hframe with hnone | ⟨attempt, hattempt, hact⟩
  · simp only [hnone]
    exact .answers (fun _ => bare 405) fun _ => rfl
  · simp only [hact]
    rcases hattempt with ⟨refusal, hpublished, hrefused⟩ | ⟨deed, hdeed, hdone⟩
    · simp only [hrefused]
      exact .answers (fun _ => refusal) fun _ => hpublished
    · simp only [hdone]
      exact hdeed

/-- **Every request does one of the deeds**, and the same one to every service. -/
theorem deed_handle : Deed r.PostsFrame fun s => s.handle r := by
  unfold handle
  cases hroute : Route.of? r.uri with
  | none => exact .answers (fun _ => bare 404) fun _ => rfl
  | some route =>
      by_cases hhead : r.method = "HEAD"
      · by_cases hstream : route = .stream
        · simp only [if_pos hhead, if_pos hstream]
          exact .answers (fun _ => bare 405) fun _ => rfl
        · simp only [if_pos hhead, if_neg hstream]
          exact .bodiless (deed_handleAs r "GET" route fun f hpost => absurd hpost (by decide))
      · simp only [if_neg hhead]
        exact deed_handleAs r r.method route fun f hpost hframe hbody =>
          ⟨hpost, hframe ▸ hroute, hbody⟩

end

/-! ## What deeds have in common -/

theorem published_command {c : Command} (h : c.isFrame = false) (s : Service) :
    (s.command c).1.published = [] := by
  have hjudges : c.judges? = none := by
    cases hc : c.judges? with
    | none => rfl
    | some q => simp [Command.isFrame_of_judges? hc] at h
  have hquiet := (Session.quiet_step .expressions s.dispatcher ⟨s.profiles, []⟩ hjudges).1
  unfold command
  dsimp only
  cases hanswer : (s.perform c).answer with
  | error e => rfl
  | ok a => exact hquiet

/-- Whatever a command answers, the service goes on with the outcome. -/
theorem command_snd (s : Service) (c : Command) : (s.command c).2 = s.after (s.perform c) := by
  unfold command
  dsimp only
  cases (s.perform c).answer <;> rfl

/-- A save changes nothing but the storage. -/
theorem save_eq (s : Service) :
    ∃ reply storage, reply.published = [] ∧ s.save = (reply, { s with storage }) := by
  unfold save
  split
  · split
    · next storage _ => exact ⟨_, storage, rfl, rfl⟩
    · exact ⟨_, s.storage, rfl, rfl⟩
  · exact ⟨_, s.storage, rfl, rfl⟩

namespace Deed

variable {posts : DetectorFrame → Prop} {deed : Service → Response × Service}

/-- Only a frame publishes anything. -/
theorem published_eq_nil (h : Deed posts deed) (hposts : ∀ f, ¬ posts f) (s : Service) :
    (deed s).1.published = [] := by
  induction h with
  | answers reply hreply => exact hreply s
  | takes => rfl
  | saves =>
      obtain ⟨reply, storage, hreply, hsave⟩ := s.save_eq
      rw [hsave]
      exact hreply
  | commands c hc => exact published_command hc s
  | evaluates f hf => exact absurd hf (hposts f)
  | bodiless _ ih => exact ih

theorem settings_eq (h : Deed posts deed) (s : Service) : (deed s).2.settings = s.settings := by
  induction h with
  | answers | takes => rfl
  | saves =>
      obtain ⟨reply, storage, -, hsave⟩ := s.save_eq
      rw [hsave]
  | commands c =>
      rw [command_snd]
      rfl
  | evaluates f => rfl
  | bodiless _ ih => exact ih

end Deed

/-! ## Requests one after the other -/

/-- The service after requests in order. -/
def serve (s : Service) (rs : List Request) : Service := rs.foldl (fun s r => (s.handle r).2) s

/-- The responses to requests in order. -/
def responses (s : Service) : List Request → List Response
  | [] => []
  | r :: rs => (s.handle r).1 :: (s.handle r).2.responses rs

/-- No request changes the settings. -/
theorem settings_serve (s : Service) (rs : List Request) :
    (s.serve rs).settings = s.settings := by
  induction rs generalizing s with
  | nil => rfl
  | cons r rs ih => exact (ih (s.handle r).2).trans ((deed_handle r).settings_eq s)

end Service

end Http

end Grimace
