import DemandPaging.Proofs.CopyProgress
import DemandPaging.Proofs.Exiting
import DemandPaging.Proofs.HostedRuns
/-!
# A process has the pages that it asked for

A process has a page if there is a descriptor of the page or the hardware maps it. Pages move
between frames, files and swap slots all the time, and descriptors come and go with that, but no
move gives a page to anybody or takes one away (`Chain.owns_iff`). A page comes into being where
a file is mapped, where a segment is described, and where a fault extends the stack within its
limit (`Event.Passes.asksFor`); so each page of a run goes back to one of these (`Run.owned_pages`).
-/

namespace DemandPaging

open Pager PagerAction

variable {n : Nat}

/-- The space has the page: there is a descriptor of it, or the hardware maps it. -/
def Pager.Owns (p : Pager n) (id : SpaceId) (u : Nat) : Prop :=
  p.descriptor? id u ≠ none ∨ p.address? id u ≠ none

theorem Pager.FramesAgree.owns_iff {p : Pager n} {f : Option (Fin n)} (hp : p.FramesAgree f)
    (id : SpaceId) (u : Nat) : p.Owns id u ↔ ¬ p.Vacant id u := by
  unfold Owns Vacant
  rw [hp.framed?_eq_none_iff, Classical.not_and_iff_not_or_not]

/-! ## Moves keep pages -/

theorem Pager.SamePage.vacant_iff {p q : Pager n} {o : SpaceId} {v : Nat} (h : SamePage p q o v) :
    q.Vacant o v ↔ p.Vacant o v := by
  unfold Vacant
  rw [h.descriptor?, h.framed?]

/-- An evicted page gets a descriptor at the latest, and a loaded page a frame. -/
theorem Shift.vacant_iff {S : Array OpenFile → Prop} {p q : Pager n} (h : Shift S p q)
    {o : SpaceId} {v : Nat} (hv : PageAligned v) : q.Vacant o v ↔ p.Vacant o v := by
  cases h with
  | still hpages => exact (hpages o v hv).vacant_iff
  | @evicted o' v' _ _ _ hothers _ hframed _ _ _ hafter =>
    by_cases hpage : o = o' ∧ v = v'
    · obtain ⟨rfl, rfl⟩ := hpage
      refine iff_of_false (fun hq => ?_) fun hp => ?_
      · exact absurd (hafter.symm.trans hq.1) (by simp)
      · exact absurd (hframed.symm.trans hp.2) (by simp)
    · exact (hothers o v hv hpage).vacant_iff
  | @loaded o' v' _ _ hothers _ _ hd _ _ _ hframed =>
    by_cases hpage : o = o' ∧ v = v'
    · obtain ⟨rfl, rfl⟩ := hpage
      refine iff_of_false (fun hq => ?_) fun hp => ?_
      · exact absurd (hframed.symm.trans hq.2) (by simp)
      · exact absurd (hd.symm.trans hp.1) (by simp)
    · exact (hothers o v hv hpage).vacant_iff

/-- The change neither makes a page nor takes one away. -/
def Change.KeepsPages : Change → Prop
  | .stored .. | .dirtied .. | .unlisted .. | .closed .. | .rewritten .. => True
  | _ => False

theorem Alters.vacant_iff {p q : Pager n} {c : Change} (h : Alters p c q) (hc : c.KeepsPages)
    {o : SpaceId} {v : Nat} (hv : PageAligned v) : q.Vacant o v ↔ p.Vacant o v := by
  cases h with
  | @stored id u _ _ _ _ hothers _ _ hframed _ hafter =>
    by_cases hpage : o = id ∧ v = u
    · obtain ⟨rfl, rfl⟩ := hpage
      refine iff_of_false (fun hq => ?_) fun hp => ?_
      · exact absurd (hafter.symm.trans hq.2) (by simp)
      · exact absurd (hframed.symm.trans hp.2) (by simp)
    · exact (hothers o v hv hpage).vacant_iff
  | @dirtied id u _ _ hothers hafter hframed =>
    by_cases hpage : o = id ∧ v = pageBase u
    · obtain ⟨rfl, rfl⟩ := hpage
      unfold Vacant
      rw [hafter, hframed]
    · exact (hothers o v hv hpage).vacant_iff
  | unlisted hpages => exact (hpages o v hv).vacant_iff
  | closed hpages => exact (hpages o v hv).vacant_iff
  | rewritten hpages => exact (hpages o v hv).vacant_iff
  | grown | described | mapped | dropped | vacated => exact hc.elim

/-- Moves keep the pages that a space has, whatever frames they take from whom. -/
theorem Chain.owns_iff {S : Array OpenFile → Prop} {p q : Pager n} {f g : Option (Fin n)}
    {cs : List Change} (h : Chain S p f cs q g) (hp : p.Agrees f) (hcs : ∀ c ∈ cs, c.KeepsPages)
    {o : SpaceId} {v : Nat} (hv : PageAligned v) : q.Owns o v ↔ p.Owns o v := by
  rw [(h.agrees hp).frames.owns_iff, hp.frames.owns_iff]
  refine not_congr ?_
  induction h with
  | refl => exact Iff.rfl
  | quiet h move ih => exact ((move.shift (h.agrees hp)).vacant_iff hv).trans (ih hcs)
  | visible h move ih =>
    exact ((move.alters (h.agrees hp)).vacant_iff
      (hcs _ (List.mem_append_right _ (List.mem_singleton_self _))) hv).trans
      (ih fun c hc => hcs c (List.mem_append_left _ hc))

/-- Taking a frame from a page keeps the pages of all spaces: the page that loses the frame has a
descriptor then. -/
theorem takeVictim_owns {p : Pager n} (hp : p.Agrees none) (id : SpaceId) (upage : Nat) :
    ((takeVictim id upage).run p).Meets
      (fun _ q => ∀ o u, PageAligned u → (q.Owns o u ↔ p.Owns o u))
      (fun _ _ => True) (fun _ => True) := by
  refine (takeVictim_evicts hp id upage).mono ?_ (fun _ _ _ => trivial) fun _ _ => trivial
  intro i q h o u hu
  obtain ⟨victim, r, hvictim, hswept, honly, _, d, hd⟩ := h.views hp
  have hmapped := hp.frames.mapped i victim hvictim (by simp)
  unfold Owns
  by_cases hpage : o = victim.owner ∧ u = victim.upage
  · obtain ⟨rfl, rfl⟩ := hpage
    rw [hd, hmapped]
    simp
  · rw [honly.descriptor? o u hpage, honly.address? o u fun hc => hpage ⟨hc.1, ?_⟩,
      hswept.descriptor?, hswept.address?]
    rw [← hc.2, hu.pageBase_eq]

/-- So does a frame that is obtained when there was none, whether one is free by then or not. -/
theorem reclaimFrame_owns {p : Pager n} (hp : p.Agrees none) (id : SpaceId) (upage : Nat) :
    ((reclaimFrame id upage).run p).Meets
      (fun _ q => ∀ o u, PageAligned u → (q.Owns o u ↔ p.Owns o u))
      (fun _ _ => True) (fun _ => True) := by
  cases htake : p.frames.takeFree id upage with
  | none =>
    rw [run_reclaimFrame_of_none htake]
    exact takeVictim_owns hp id upage
  | some taken =>
    obtain ⟨i, frames⟩ := taken
    rw [run_reclaimFrame_of_some htake]
    exact fun _ _ _ => Iff.rfl

/-! ## Where pages come from -/

/-- The page lies in a segment that the event describes. -/
inductive Event.Describes (o : SpaceId) (v : Nat) : Event → Prop where
  | segment {source : FileRef} {offset upage readBytes zeroBytes : Nat} {writable : Bool}
      (hlow : upage ≤ v) (hhigh : v + pageSize ≤ upage + (readBytes + zeroBytes)) :
      Describes o v (.request (.addSegment o source offset upage readBytes zeroBytes writable))

/-- The event is a fault in the page, within the limit of the stack and not too far below the
stack pointer. -/
inductive Event.Grows (config : PagerConfig) (o : SpaceId) (v : Nat) : Event → Prop where
  | fault {address stackPointer : Nat} (hv : v = pageBase address) (huser : IsUserAddress address)
      (hlimit : userTop - config.stackLimit ≤ address)
      (hslack : stackPointer - config.stackSlack ≤ address) :
      Grows config o v (.request (.fault o address stackPointer))

/-- The page belongs to a live mapping of the space. -/
def Pager.InMapping (p : Pager n) (o : SpaceId) (v : Nat) : Prop :=
  ∃ m fm, p.mapping? o m = some fm ∧ v ∈ fm.pages

/-- How the page is asked for by an event from `p` that has come to `r`. -/
inductive Event.AsksFor (p r : Pager n) (o : SpaceId) (v : Nat) (e : Event) : Prop where
  | mapping {index base : Nat} (he : e = .request (.mapFile o index base))
      (hlive : r.InMapping o v)
  | segment (he : e.Describes o v)
  | stack (he : e.Grows p.config o v)

/-- The event changes what pages hold, and where they are, and nothing else. -/
def Event.LeavesPages : Event → Prop
  | .request op => match op with
    | .fault .. | .mapFile .. | .unmapFile .. | .addSegment .. | .exit _ => False
    | _ => True
  | .rewrite .. => True

theorem Event.HasMade.keepsPages {p : Pager n} {e : Event} {cs : List Change}
    (h : e.HasMade p cs) (he : e.LeavesPages) : ∀ c ∈ cs, c.KeepsPages := by
  intro c hc
  cases h.causes hc with
  | stored | dirtied | rewritten | unlisted | closed => trivial
  | grown | mapped | described | vacated => exact he.elim
  | dropped hdown =>
    rcases hdown with rfl | rfl
    · exact he.elim
    · exact he.elim

/-- The lowest page that a stack can reach. -/
theorem Event.Grows.window {config : PagerConfig} {o : SpaceId} {v : Nat} {e : Event}
    (h : e.Grows config o v) : pageBase (userTop - min config.stackLimit userTop) ≤ v := by
  cases h with
  | fault hv _ hlimit =>
    rw [hv]
    unfold pageBase
    exact Nat.mul_le_mul_right _ (Nat.div_le_div_right (by omega))

section

variable {p q r : Pager n} {o : SpaceId} {v : Nat}

/-- A fault that makes a page extends the stack to it. -/
theorem grows_of_fault {id : SpaceId} {address stackPointer : Nat} (hp : p.Agrees none)
    (hid : id < p.spaces.size)
    (hq : ((handleFault id address stackPointer).run p).state? = some q) (hv : PageAligned v)
    (hvacant : p.Vacant o v) (hthere : ¬ q.Vacant o v) :
    (Event.request (.fault id address stackPointer)).Grows p.config o v := by
  have hquiet : ∀ {t}, Leads id (pageBase address) p [] t → t.Vacant o v := fun h =>
    h.chain.vacant hp hv (fun c hc => absurd hc List.not_mem_nil) hvacant
  have hspec : ((handleFault id address stackPointer).run p).Meets
      (fun _ q => q.Vacant o v
        ∨ (Event.request (.fault id address stackPointer)).Grows p.config o v)
      (fun _ q => q.Vacant o v
        ∨ (Event.request (.fault id address stackPointer)).Grows p.config o v)
      fun reason => OutOfFrames p id (pageBase address) reason := by
    refine (handleFault_spec hp hid address stackPointer).mono ?_
      (fun _ _ h => Or.inl (hquiet h.1)) fun _ h => h
    rintro _ t ⟨hgood, ⟨hleads, _⟩ | ⟨hd, hnone, hleads⟩⟩
    · exact Or.inl (hquiet hleads)
    · by_cases hpage : o = id ∧ v = pageBase address
      · obtain ⟨rfl, rfl⟩ := hpage
        unfold BadAccess at hgood
        have hnear : p.config.isNearStack address stackPointer = true := by
          by_contra hfar
          exact hgood (Or.inr (Or.inr ⟨hd, hnone, Bool.eq_false_iff.mpr hfar⟩))
        unfold PagerConfig.isNearStack at hnear
        rw [Bool.and_eq_true, decide_eq_true_eq, decide_eq_true_eq] at hnear
        have huser : IsUserAddress address := by
          by_contra hout
          exact hgood (Or.inr (Or.inl hout))
        exact Or.inr (.fault rfl huser hnear.2 (by omega))
      · refine Or.inl (hleads.chain.vacant hp hv (fun c hc => ?_) hvacant)
        rw [List.mem_singleton.mp hc]
        exact hpage
  exact (hspec.of_state? hq).resolve_left hthere

/-- A page that is new after an event, or in the middle of it, was asked for by the event. -/
theorem Event.Passes.asksFor {e : Event} (hp : p.Agrees none) (he : e.Permitted p)
    (h : e.Passes p r) (hv : PageAligned v) (hnew : ¬ p.Owns o v) (howns : r.Owns o v) :
    e.AsksFor p r o v := by
  obtain ⟨cs, hmade, hchain⟩ := h.chain (S := fun _ => True) hp he fun _ _ => trivial
  have hvacant : p.Vacant o v := Classical.not_not.mp fun hc => hnew ((hp.frames.owns_iff o v).mpr hc)
  have hthere : ¬ r.Vacant o v := ((hchain.agrees hp).frames.owns_iff o v).mp howns
  obtain ⟨c, hmem, hcreates⟩ : ∃ c ∈ cs, c.Creates o v := by
    by_contra hnone
    exact hthere (hchain.vacant hp hv (fun c hc hcreates => hnone ⟨c, hc, hcreates⟩) hvacant)
  cases hmade.causes hmem with
  | grown =>
    cases h with
    | ended h =>
      have hstate := (state?_map (fun _ => Answer.nothing) _ p).symm.trans h
      exact .stack (grows_of_fault hp he.1 hstate hv hvacant hthere)
  | @described id source offset upage readBytes zeroBytes i writable hi =>
    obtain ⟨rfl, rfl⟩ := hcreates
    have hend := Nat.le_trans (mul_add_pageSize_le hi) (Nat.div_mul_le_self _ _)
    refine .segment (.segment (Nat.le_add_right _ _) ?_)
    show upage + i * pageSize + pageSize ≤ upage + (readBytes + zeroBytes)
    omega
  | mapped =>
    obtain ⟨rfl, hpages⟩ := hcreates
    obtain ⟨m, hm, _⟩ := hchain.mapping?_of_mapped hp hmem fun m hunlisted => by
      cases hmade.causes hunlisted with
      | unlisted hdown => rcases hdown with hdown | hdown <;> cases hdown
    exact .mapping rfl ⟨m, _, hm, hpages⟩
  | stored | unlisted | dropped | closed | dirtied | vacated | rewritten => exact hcreates.elim

/-- Nothing is left of a page when its mapping is taken down. -/
theorem Event.Passes.inMapping_of_owns {e : Event} (hp : p.Agrees none) (he : e.Permitted p)
    (h : e.Passes p r) (hv : PageAligned v) (hlive : p.InMapping o v) (howns : r.Owns o v) :
    r.InMapping o v := by
  obtain ⟨cs, hmade, hchain⟩ := h.chain (S := fun _ => True) hp he fun _ _ => trivial
  obtain ⟨m, fm, hm, hpages⟩ := hlive
  refine ⟨m, fm, hchain.mapping?_of_not_mem hp hm fun hmem => ?_, hpages⟩
  have hdown : e.TakesDown o m := by
    cases hmade.causes hmem with
    | unlisted hdown => exact hdown
  have hcreates : ∀ c ∈ cs, ¬ c.Creates o v := by
    intro c hc hcreates
    cases hmade.causes hc with
    | grown | described | mapped => rcases hdown with hdown | hdown <;> cases hdown
    | stored | unlisted | dropped | closed | dirtied | vacated | rewritten => exact hcreates
  have hdropped : .dropped o v ∈ cs := by
    rcases hmade with hmakes | ⟨_, _, _, _, _, rfl, _⟩
    · exact hmakes.dropped_of_unlisted hm hmem hpages
    · rcases hdown with hdown | hdown <;> cases hdown
  exact ((hchain.agrees hp).frames.owns_iff o v).mp howns (hchain.gone hp hv hcreates hdropped)

/-- A process that has exited has no pages. -/
theorem Event.Passes.not_owns_of_exit (hp : p.Agrees none)
    (he : (Event.request (.exit o)).Permitted p) (h : (Event.request (.exit o)).Passes p r)
    (hv : PageAligned v) : ¬ r.Owns o v := by
  cases h with
  | ended h =>
    have hid : o < p.spaces.size := he.1
    obtain ⟨q, hrun, _, _, hdown, _⟩ := hp.exits hid
    have hstate : ((exitSpace o).run p).state? = some r :=
      (state?_map (fun _ => Answer.nothing) _ p).symm.trans h
    rw [hrun] at hstate
    cases hstate
    obtain ⟨hd, hx⟩ := hdown.vacant v hv trivial
    exact fun howns => howns.elim (fun hc => hc hd) fun hc => hc hx

end

/-! ## Runs -/

/-- An event of some kind has happened, and the process has not exited since. -/
def Since (id : SpaceId) (es : List Event) (kind : Event → Prop) : Prop :=
  ∃ front e back, es = front ++ e :: back ∧ kind e ∧ .request (.exit id) ∉ back

theorem Since.last {id : SpaceId} {es : List Event} {kind : Event → Prop} {e : Event} (h : kind e) :
    Since id (es ++ [e]) kind := ⟨es, e, [], rfl, h, List.not_mem_nil⟩

theorem Since.snoc {id : SpaceId} {es : List Event} {kind : Event → Prop} {e : Event}
    (h : Since id es kind) (he : e ≠ .request (.exit id)) : Since id (es ++ [e]) kind := by
  obtain ⟨front, e', back, rfl, hkind, hback⟩ := h
  refine ⟨front, e', back ++ [e], by rw [List.append_assoc, List.cons_append], hkind, fun hmem => ?_⟩
  rcases List.mem_append.mp hmem with hmem | hmem
  · exact hback hmem
  · exact he (List.mem_singleton.mp hmem).symm

/-- Every page that a space has lies in user space and was asked for by the events: it belongs to
a live mapping, or to a segment that was described since the process last exited, or the stack
was extended to it since then. -/
def Pager.AskedFor (p : Pager n) (es : List Event) : Prop :=
  ∀ id u, PageAligned u → p.Owns id u → u < userTop ∧ (p.InMapping id u
    ∨ Since id es (·.Describes id u)
    ∨ Since id es (·.Grows p.config id u)
      ∧ pageBase (userTop - min p.config.stackLimit userTop) ≤ u)

theorem Pager.Agrees.lt_userTop_of_owns {p : Pager n} {f : Option (Fin n)} (hp : p.Agrees f)
    {id : SpaceId} {u : Nat} (hu : PageAligned u) (h : p.Owns id u) : u < userTop := by
  rcases h with hd | hx
  · obtain ⟨d, hd⟩ := Option.ne_none_iff_exists'.mp hd
    exact (hp.descriptors.upage id u d hd).2
  · obtain ⟨x, hx⟩ := Option.ne_none_iff_exists'.mp hx
    obtain ⟨i, a, ha, _, _, hupage⟩ := hp.frames.assigned id u x hx
    have huser := (hp.frames.upage i a ha).2
    rwa [hupage, hu.pageBase_eq] at huser

/-- What an event brings a space is asked for by the event. -/
theorem Event.Passes.askedFor {p r : Pager n} {e : Event} {es : List Event} (hp : p.Agrees none)
    (he : e.Permitted p) (h : e.Passes p r) (hasked : p.AskedFor es) : r.AskedFor (es ++ [e]) := by
  intro id u hu howns
  obtain ⟨cs, _, hchain⟩ := h.chain (S := fun _ => True) hp he fun _ _ => trivial
  have hconfig : r.config = p.config := hchain.config_eq
  refine ⟨(hchain.agrees hp).lt_userTop_of_owns hu howns, ?_⟩
  rw [hconfig]
  by_cases hnew : p.Owns id u
  · have hstays : e ≠ .request (.exit id) := by
      rintro rfl
      exact Event.Passes.not_owns_of_exit hp he h hu howns
    rcases (hasked id u hu hnew).2 with hlive | hsince | ⟨hsince, hwindow⟩
    · exact Or.inl (h.inMapping_of_owns hp he hu hlive howns)
    · exact Or.inr (Or.inl (hsince.snoc hstays))
    · exact Or.inr (Or.inr ⟨hsince.snoc hstays, hwindow⟩)
  · cases h.asksFor hp he hu hnew howns with
    | mapping _ hlive => exact Or.inl hlive
    | segment hdescribes => exact Or.inr (Or.inl (.last hdescribes))
    | stack hgrows => exact Or.inr (Or.inr ⟨.last hgrows, hgrows.window⟩)

theorem Run.askedFor {p q : Pager n} {es front : List Event} (h : Run p es q) (hp : p.Agrees none)
    (hasked : p.AskedFor front) : q.AskedFor (front ++ es) := by
  induction h generalizing front with
  | refl => rwa [List.append_nil]
  | step he happly _ ih =>
    have hnext := (Event.passes_of_apply happly).askedFor hp he hasked
    rw [List.append_cons]
    exact ih (Event.agrees hp he happly) hnext

theorem Pager.IsStart.not_owns {p : Pager n} (h : p.IsStart) (id : SpaceId) (u : Nat) :
    ¬ p.Owns id u := by
  obtain ⟨_, _, _, _, hspace⟩ := h.fields
  unfold Owns descriptor? address?
  rw [(hspace id).1, (hspace id).2.1]
  exact fun howns => howns.elim (fun hc => hc rfl) fun hc => hc rfl

/-- **A process has only pages that it asked for.** In each state of a run, those in the middle of
a copy included, every page that a process has lies in user space and in a live mapping, in a
segment described since the process last exited, or in the window of the stack, where a fault
within the limit and not too far below the stack pointer brought it. No other event brings a new
page; copies, loads, pins and flags leave the pages of all processes as they are, and so does
taking a frame from a page. -/
theorem Run.owned_pages {s p : Pager n} {es : List Event} (hs : s.IsStart) (hrun : Run s es p) :
    p.AskedFor es
      ∧ (∀ (e : Event) (r : Pager n), e.Permitted p → e.Passes p r → r.AskedFor (es ++ [e])
        ∧ (∀ id u, PageAligned u → ¬ p.Owns id u → r.Owns id u → e.AsksFor p r id u)
        ∧ (e.LeavesPages → ∀ id u, PageAligned u → (r.Owns id u ↔ p.Owns id u)))
      ∧ ∀ t, Passed s es t → ∀ id upage i q, (reclaimFrame id upage).run t = .done i q →
        ∀ o u, PageAligned u → (q.Owns o u ↔ t.Owns o u) := by
  have hp := hrun.agrees hs.agrees
  have hasked : p.AskedFor es := by
    have hstart : s.AskedFor [] := fun id u _ howns => absurd howns (hs.not_owns id u)
    have hall := hrun.askedFor hs.agrees hstart
    rwa [List.nil_append] at hall
  refine ⟨hasked, ?_, ?_⟩
  · intro e r he hpasses
    refine ⟨hpasses.askedFor hp he hasked, fun id u hu => hpasses.asksFor hp he hu, ?_⟩
    intro hleaves id u hu
    obtain ⟨cs, hmade, hchain⟩ := hpasses.chain (S := fun _ => True) hp he fun _ _ => trivial
    exact hchain.owns_iff hp (hmade.keepsPages hleaves) hu
  · intro t ht id upage i q hreclaim
    have hspec := reclaimFrame_owns (ht.agrees hs.agrees) id upage
    rw [hreclaim] at hspec
    exact hspec

/-- A file is mapped, a segment is described after it, the stack is touched, and then the mapped
page is loaded, for which the stack has to give up the only frame. -/
def threeOrigins : List Event :=
  [.request (.mapFile 0 0 pageSize),
    .request (.addSegment 0 ⟨0, 0⟩ 0 (2 * pageSize) 3 (pageSize - 3) true),
    .request (.fault 0 topPage topPage), .request (.load 0 pageSize)]

/-- The process then has a page of each kind: that of the mapping in the frame, that of the segment
still in the file, and that of the stack in a swap slot. It has no other page of the stack, and
whoever takes the frame next leaves it the three. -/
theorem Run.owned_pages_oneFrame :
    ∃ p, p = (oneFrame #[.ofBytes [1, 2, 3]]).ran threeOrigins
      ∧ (oneFrame #[.ofBytes [1, 2, 3]]).IsStart
      ∧ Run (oneFrame #[.ofBytes [1, 2, 3]]) threeOrigins p ∧ p.AskedFor threeOrigins
      ∧ (p.Owns 0 pageSize ∧ p.address? 0 pageSize ≠ none)
      ∧ (p.Owns 0 (2 * pageSize) ∧ p.address? 0 (2 * pageSize) = none)
      ∧ (p.Owns 0 topPage ∧ p.slot? 0 topPage = some 0)
      ∧ ¬ p.Owns 0 nextPage
      ∧ ∃ q, (reclaimFrame 0 (2 * pageSize)).run p = .done 0 q ∧ q.address? 0 pageSize = none
        ∧ ∀ o u, PageAligned u → (q.Owns o u ↔ p.Owns o u) := by
  generalize hp : (oneFrame #[.ofBytes [1, 2, 3]]).ran threeOrigins = p
  have hstart := isStart_oneFrame #[.ofBytes [1, 2, 3]]
  have hrun : Run (oneFrame #[.ofBytes [1, 2, 3]]) threeOrigins p :=
    hp ▸ run_ran (by decide +kernel)
  obtain ⟨hasked, _, hkeeps⟩ := owned_pages hstart hrun
  obtain ⟨hmapped, ⟨hsegment, hunloaded⟩, ⟨hstack, hslot⟩, hnext⟩ :
      p.address? 0 pageSize ≠ none
        ∧ (p.descriptor? 0 (2 * pageSize) ≠ none ∧ p.address? 0 (2 * pageSize) = none)
        ∧ (p.descriptor? 0 topPage ≠ none ∧ p.slot? 0 topPage = some 0)
        ∧ p.descriptor? 0 nextPage = none ∧ p.address? 0 nextPage = none := by
    rw [← hp]
    decide +kernel
  have hdone : ((reclaimFrame 0 (2 * pageSize)).run p).isDone = true := by
    rw [← hp]
    decide +kernel
  obtain ⟨i, q, hq⟩ := Outcome.eq_done hdone
  obtain rfl : i = 0 := Subsingleton.elim i 0
  have hgone : q.address? 0 pageSize = none := by
    have hafter : ((reclaimFrame 0 (2 * pageSize)).run p).state?.map (·.address? 0 pageSize)
        = some none := by
      rw [← hp]
      decide +kernel
    rw [hq] at hafter
    exact Option.some.inj hafter
  exact ⟨p, rfl, hstart, hrun, hasked, ⟨Or.inr hmapped, hmapped⟩,
    ⟨Or.inl hsegment, hunloaded⟩, ⟨Or.inl hstack, hslot⟩,
    fun howns => howns.elim (fun hc => hc hnext.1) fun hc => hc hnext.2,
    q, hq, hgone, hkeeps p hrun.passed 0 _ 0 q hq⟩

end DemandPaging
