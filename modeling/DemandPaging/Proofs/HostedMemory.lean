import DemandPaging.Proofs.PresentedChanges
/-!
# The memory that the pager hosts for a process

Between operations the pager not only presents a memory to a process but lists the mappings of
this memory, and its swap area can be read (`Pager.Hosts`). Every sequence of moves keeps that up,
with the memory changed as the labels of the moves say (`Hosts.chain`).
-/

namespace DemandPaging

open Pager

variable {n : Nat}

namespace Pager

/-- The mappings of a memory are those of the space `b`, by the same numbers. -/
structure Lists (p : Pager n) (b : SpaceId) (M : Memory) : Prop where
  regions : ∀ m, M.regions m = (p.mapping? b m).map FileMapping.region
  next : M.nextRegion = (p.space b).mappings.nextId

theorem Lists.congr {p q : Pager n} {b : SpaceId} {M M' : Memory} (h : p.Lists b M)
    (hregions : M'.regions = M.regions) (hnext : M'.nextRegion = M.nextRegion)
    (hmappings : (q.space b).mappings = (p.space b).mappings) : q.Lists b M' := by
  refine ⟨fun m => ?_, ?_⟩
  · unfold mapping?
    rw [hregions, hmappings]
    exact h.regions m
  · rw [hnext, hmappings, h.next]

end Pager

/-- Only mapping a file and taking a mapping down changes which mappings are listed. -/
theorem Change.regions_onMemory {c : Change} {b : SpaceId} (M : Memory)
    (hmapped : ∀ fm, c ≠ .mapped b fm) (hunlisted : ∀ m, c ≠ .unlisted b m) :
    (c.onMemory b M).regions = M.regions ∧ (c.onMemory b M).nextRegion = M.nextRegion := by
  cases c with
  | grown id u =>
    show (if id = b then _ else M).regions = _ ∧ (if id = b then _ else M).nextRegion = _
    split
    · exact ⟨rfl, rfl⟩
    · exact ⟨rfl, rfl⟩
  | stored id u start bytes =>
    show (if id = b then _ else M).regions = _ ∧ (if id = b then _ else M).nextRegion = _
    split
    · exact Memory.regions_store M u start bytes
    · exact ⟨rfl, rfl⟩
  | described id d =>
    show (if id = b then _ else M).regions = _ ∧ (if id = b then _ else M).nextRegion = _
    split
    · exact Memory.regions_describe M d
    · exact ⟨rfl, rfl⟩
  | mapped id fm =>
    have hid : id ≠ b := fun hid => hmapped fm (hid ▸ rfl)
    show (if id = b then _ else M).regions = _ ∧ (if id = b then _ else M).nextRegion = _
    rw [if_neg hid]
    exact ⟨rfl, rfl⟩
  | unlisted id m =>
    have hid : id ≠ b := fun hid => hunlisted m (hid ▸ rfl)
    show (if id = b then _ else M).regions = _ ∧ (if id = b then _ else M).nextRegion = _
    rw [if_neg hid]
    exact ⟨rfl, rfl⟩
  | dropped id u =>
    show (if id = b then _ else M).regions = _ ∧ (if id = b then _ else M).nextRegion = _
    split
    · exact ⟨rfl, rfl⟩
    · exact ⟨rfl, rfl⟩
  | dirtied | closed | vacated | rewritten => exact ⟨rfl, rfl⟩

namespace Visible

variable {p q : Pager n} {f g : Option (Fin n)} {c : Change} {b : SpaceId} {M : Memory}

/-- The list of mappings changes as the label of a move says. -/
theorem lists (move : Visible p f c q g) (h : p.Lists b M) : q.Lists b (c.onMemory b M) := by
  by_cases hmapped : ∃ fm, c = .mapped b fm
  · obtain ⟨fm, rfl⟩ := hmapped
    rw [Change.onMemory_mapped]
    cases move with
    | mapped hid =>
      refine ⟨fun m => ?_, ?_⟩
      · rw [(views_mapped hid rfl).2.2.2.2]
        unfold Memory.addRegion
        simp only [h.next, true_and]
        split
        next => rfl
        next => exact h.regions m
      · rw [mappings_of_put rfl hid, if_pos rfl]
        exact congrArg (· + 1) h.next
  · by_cases hunlisted : ∃ m, c = .unlisted b m
    · obtain ⟨m, rfl⟩ := hunlisted
      rw [Change.onMemory_unlisted]
      cases move with
      | unlisted =>
        refine ⟨fun k => ?_, ?_⟩
        · rw [mapping?_unlisted]
          unfold Memory.unlist
          simp only [true_and]
          by_cases hk : k = m
          · rw [if_pos hk]
            split
            next => rfl
            next hsize =>
              -- a space that does not exist has no mappings
              have hspace : p.space b = default :=
                Spaces.lookup_of_size_le (Nat.le_of_not_lt fun hlt => hsize ⟨hk, hlt⟩)
              unfold mapping?
              rw [hspace]
              rfl
          · rw [if_neg hk, if_neg fun hc => hk hc.1]
            exact h.regions k
        · rw [(views_unlisted b m rfl b).2.2]
          exact h.next
    · have hm : ∀ fm, c ≠ .mapped b fm := fun fm hc => hmapped ⟨fm, hc⟩
      have hu : ∀ m, c ≠ .unlisted b m := fun m hc => hunlisted ⟨m, hc⟩
      obtain ⟨hregions, hnext⟩ := c.regions_onMemory M hm hu
      exact h.congr hregions hnext (move.mappings_of_ne hm hu)

/-- No visible move changes the device of the swap area. -/
theorem device_eq (move : Visible p f c q g) (hp : p.Agrees f) :
    q.swap.device = p.swap.device := by
  cases move with
  | @droppedAbsent id u d =>
    show (p.swap.freed? d.backing.slot?).device = p.swap.device
    cases d.backing.slot? with
    | none => rfl
    | some slot => rfl
  | @vacated id swap _ _ hswap =>
    obtain ⟨swap', hrun, hdevice, _⟩ := hp.slots.freeSlots id
    rw [hswap] at hrun
    cases hrun
    exact hdevice
  | grown | stored | dirtied | described | mapped | unlisted | droppedPresent | closed
  | rewritten => rfl

theorem backed (move : Visible p f c q g) (hp : p.Agrees f) (hswap : p.swap.Backed) :
    q.swap.Backed := by
  unfold SwapArea.Backed
  rw [move.device_eq hp]
  exact hswap

end Visible

namespace Quiet

variable {S : Array OpenFile → Prop} {p q : Pager n} {f g : Option (Fin n)}

/-- A quiet move leaves the swap area as large as it is. -/
theorem backed (move : Quiet S p f q g) (hp : p.swap.Backed) : q.swap.Backed := by
  cases move with
  | evicted _ _ _ _ _ _ _ hkeeps =>
    rcases hkeeps.slot with ⟨hsame, _⟩ | ⟨slot, hstore, _⟩
    · exact hsame ▸ hp
    · exact SwapArea.backed_store hstore hp
  | @settled id u i d =>
    show ((p.swap.withReads _).freed? d.backing.slot?).Backed
    cases d.backing.slot? with
    | none => exact hp
    | some slot => exact hp
  | swept | took | scribbled | returned | pinned | accessed => exact hp

end Quiet

namespace Pager

/-- The pager hosts the memory `M` for the space `b`, which uses the files `U`. -/
structure Hosts (p : Pager n) (U : FileUse) (b : SpaceId) (M : Memory) : Prop where
  agrees : p.Agrees none
  presents : p.Presents U b M
  lists : p.Lists b M
  backed : p.swap.Backed

end Pager

/-- Moves change the memory that is hosted for a process as their labels say. -/
theorem Pager.Hosts.chain {S : Array OpenFile → Prop} {p q : Pager n} {U : FileUse} {b : SpaceId}
    {M : Memory} {cs : List Change} (hp : p.Hosts U b M) (h : Chain S p none cs q none)
    (hcs : ∀ c ∈ cs, c.Suits U b) : q.Hosts U b (cs.foldl (Change.onMemory b) M) := by
  -- on the way a frame may be in flight, which only the agreement of the tables knows of
  suffices hall : ∀ {f g q cs}, f = none → Chain S p f cs q g → (∀ c ∈ cs, c.Suits U b) →
      q.Presents U b (cs.foldl (Change.onMemory b) M)
        ∧ q.Lists b (cs.foldl (Change.onMemory b) M) ∧ q.swap.Backed by
    obtain ⟨hpresents, hlists, hbacked⟩ := hall rfl h hcs
    exact ⟨h.agrees hp.agrees, hpresents, hlists, hbacked⟩
  intro f g q cs hf h hcs
  subst hf
  induction h with
  | refl => exact ⟨hp.presents, hp.lists, hp.backed⟩
  | quiet h move ih =>
    obtain ⟨hpresents, hlists, hbacked⟩ := ih hcs
    have hagrees := h.agrees hp.agrees
    exact ⟨(move.shift hagrees).presents hagrees.slots.fitted hpresents,
      hlists.congr rfl rfl (move.mappings b), move.backed hbacked⟩
  | visible h move ih =>
    obtain ⟨hpresents, hlists, hbacked⟩ := ih fun c hc => hcs c (List.mem_append_left _ hc)
    have hagrees := h.agrees hp.agrees
    have hlast := hcs _ (List.mem_append_right _ (List.mem_singleton_self _))
    rw [List.foldl_append]
    exact ⟨(move.alters hagrees).presents hlast hpresents, move.lists hlists,
      move.backed hagrees hbacked⟩

/-- What a single change makes of the memory. -/
theorem Pager.Hosts.change {S : Array OpenFile → Prop} {p q : Pager n} {U : FileUse} {b : SpaceId}
    {M : Memory} {c : Change} (hp : p.Hosts U b M) (h : Chain S p none [c] q none)
    (hc : c.Suits U b) : q.Hosts U b (c.onMemory b M) :=
  hp.chain h fun _ hmem => List.mem_singleton.mp hmem ▸ hc

end DemandPaging
