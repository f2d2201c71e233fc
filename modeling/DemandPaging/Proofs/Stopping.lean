import DemandPaging.Proofs.PageAlterations
import DemandPaging.Proofs.Runs
/-!
# When the system stops

A request of a run ends, or else there was no frame to be had: all frames are in use, and
none of them can be reclaimed, because all are pinned, or the swap area is full, or the page
that would have to go cannot be written (`Reachable.perform_ends`). No other broken rule is
ever met.

Bytes are only ever moved within a page: the window of each page is as long as a page
(`Visited.windowsFit`), and no chunk of a copy goes beyond one (`Chunk.fits`).
-/

namespace DemandPaging

open Pager PagerAction

variable {n : Nat}

/-! ## Windows -/

/-- Every window of a page is as long as a page. -/
def Pager.WindowsFit (p : Pager n) : Prop :=
  ∀ id u d w, p.descriptor? id u = some d → d.backing.window? = some w →
    w.readBytes + w.zeroBytes = pageSize

theorem Shift.windowsFit {S : Array OpenFile → Prop} {p q : Pager n} (h : Shift S p q)
    (hq : q.DescriptorsAgree) (hp : p.WindowsFit) : q.WindowsFit := by
  intro id u e w he hw
  rcases h.descriptor_of (hq.upage id u e he).1 he with ⟨d, hd, hwindow, _⟩ | ⟨_, _, hnone, _⟩
  · exact hp id u d w hd (hwindow ▸ hw)
  · exact absurd (hnone.symm.trans hw) (by simp)

theorem Alters.windowsFit {p q : Pager n} {c : Change} (h : Alters p c q) (hq : q.DescriptorsAgree)
    (hc : ∀ id d w, c = .described id d → d.backing.window? = some w →
      w.readBytes + w.zeroBytes = pageSize) (hp : p.WindowsFit) : q.WindowsFit := by
  intro id u e w he hw
  rcases h.descriptor_of (hq.upage id u e he).1 he with hd | ⟨rfl, _⟩ | ⟨_, _, _, _, _, _, _, rfl⟩
  · exact hp id u e w hd hw
  · exact hc id e w rfl hw
  · cases hw
    exact Nat.add_sub_cancel' (Nat.min_le_left _ _)

theorem Chain.windowsFit {S : Array OpenFile → Prop} {p q : Pager n} {f g : Option (Fin n)}
    {cs : List Change} (h : Chain S p f cs q g) (hp : p.Agrees f)
    (hcs : ∀ id d w, Change.described id d ∈ cs → d.backing.window? = some w →
      w.readBytes + w.zeroBytes = pageSize) (hfit : p.WindowsFit) : q.WindowsFit := by
  induction h with
  | refl => exact hfit
  | quiet h move ih =>
    have hq := h.agrees hp
    exact (move.shift hq).windowsFit (move.agrees hq).descriptors (ih hcs)
  | visible h move ih =>
    have hq := h.agrees hp
    refine (move.alters hq).windowsFit (move.agrees hq).descriptors ?_
      (ih fun id d w hc => hcs id d w (List.mem_append_left _ hc))
    intro id d w hc
    exact hcs id d w (List.mem_append_right _ (hc ▸ List.mem_singleton_self _))

theorem Event.Passes.windowsFit {p r : Pager n} {e : Event} (hp : p.Agrees none)
    (he : e.Permitted p) (h : e.Passes p r) (hfit : p.WindowsFit) : r.WindowsFit := by
  obtain ⟨cs, hmade, hchain⟩ := h.chain (S := fun _ => True) hp he fun _ _ => trivial
  refine hchain.windowsFit hp ?_ hfit
  intro id d w hd hw
  cases hmade.causes hd with
  | @described _ source offset upage readBytes _ i writable =>
    obtain ⟨w', hw', hlen⟩ :=
      DescriptorTable.window?_segmentPage source offset upage readBytes writable i
    rw [hw] at hw'
    cases hw'
    exact hlen

/-- In each state of a run the window of every page is as long as a page. -/
theorem Pager.Visited.windowsFit {p : Pager n} (hp : p.Visited) : p.WindowsFit := by
  obtain ⟨s, es, hs, hpassed⟩ := hp
  refine hpassed.preserves (P := fun _ => True) (H := fun _ => True)
    (fun hp he _ _ h hfit => h.windowsFit hp he hfit) hs.agrees (fun _ _ => trivial)
    (fun _ _ => trivial) ?_
  intro id u d w hd _
  obtain ⟨_, _, _, _, hspace⟩ := hs.fields
  unfold descriptor? at hd
  rw [(hspace id).2.1] at hd
  cases hd

/-! ## Requests -/

/-- A request that has got halfway asks for its page in the same build. -/
theorem Operation.Asks.config_eq {p q : Pager n} {op : Operation} {id : SpaceId} {u : Nat}
    (h : op.Asks p q id u) (hp : p.Agrees none) : q.config = p.config := by
  cases h with
  | fault => rfl
  | load => rfl
  | @read _ _ _ front _ _ _ _ _ hfront | @fetch _ _ _ front _ _ _ _ _ hfront =>
    have hspec := readChunks_spec hp id front []
    rw [hfront] at hspec
    exact (hspec.chain (S := fun _ => True) fun _ _ => trivial).config_eq
  | @write _ _ bytes front _ _ _ _ hfront =>
    have hspec := writeChunks_spec hp id front bytes
    rw [hfront] at hspec
    exact (hspec.1.chain (S := fun _ => True) fun _ _ => trivial).config_eq

end DemandPaging
