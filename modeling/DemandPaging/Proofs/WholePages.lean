import DemandPaging.Proofs.PastTheEnd
/-!
# What is kept of the pages of a mapping

A mapping has whole pages, and its file may end within the last one. `mapped_pages_kept` says
what a process reads from all of these pages, and what is in the file when the mapping is gone.

Up to the end of the file everything is kept. Past the end a byte that was stored is there as
long as the last page stays in its frame, and a zero once it has left it. So what is read there,
and what is left in the file, depends on the number of frames (`tail_lost_oneFrame`). If nothing
was stored past the end, all of it is determined by the file and the bytes that were stored
(`savedBytes`).
-/

namespace DemandPaging

open Pager PagerAction Outcome

variable {n : Nat}

/-! ## The file afterwards -/

/-- How long a mapped file is afterwards: it is filled up to whole pages if anything was stored
in the last one. -/
def savedLength (length : Nat) (stored? : Nat → Option UInt8) : Nat :=
  if (List.range pageSize).any fun b => (stored? ((pagesFor length - 1) * pageSize + b)).isSome then
    pagesFor length * pageSize
  else length

/-- What is in a mapped file afterwards, if all that was stored is there. -/
def savedBytes (data : Bytes) (stored? : Nat → Option UInt8) : Bytes :=
  (List.range (savedLength data.length stored?)).map fun i => (stored? i).getD (data.getD i 0)

theorem getElem?_savedBytes (data : Bytes) (stored? : Nat → Option UInt8) (i : Nat) :
    (savedBytes data stored?)[i]? = if i < savedLength data.length stored? then
      some ((stored? i).getD (data.getD i 0)) else none := by
  unfold savedBytes
  rw [List.getElem?_map]
  split
  next h => rw [List.getElem?_range h, Option.map_some]
  next h =>
    rw [List.getElem?_eq_none (by simpa using h), Option.map_none]

theorem savedLength_cases (length : Nat) (stored? : Nat → Option UInt8) :
    (∃ b, b < pageSize ∧ (stored? ((pagesFor length - 1) * pageSize + b)).isSome = true)
        ∧ savedLength length stored? = pagesFor length * pageSize
      ∨ (∀ b, b < pageSize → stored? ((pagesFor length - 1) * pageSize + b) = none)
        ∧ savedLength length stored? = length := by
  unfold savedLength
  split
  next hany =>
    obtain ⟨b, hb, hstored⟩ := List.any_eq_true.mp hany
    exact Or.inl ⟨⟨b, List.mem_range.mp hb, hstored⟩, rfl⟩
  next hnone =>
    refine Or.inr ⟨fun b hb => ?_, rfl⟩
    have hb := fun h => hnone (List.any_eq_true.mpr ⟨b, List.mem_range.mpr hb, h⟩)
    simpa using hb

theorem length_le_savedLength (length : Nat) (stored? : Nat → Option UInt8) :
    length ≤ savedLength length stored?
      ∧ savedLength length stored? ≤ pagesFor length * pageSize := by
  have hroom : length ≤ pagesFor length * pageSize := by
    simp only [pagesFor, pageSize]
    omega
  unfold savedLength
  split
  next => exact ⟨hroom, Nat.le_refl _⟩
  next => exact ⟨Nat.le_refl _, hroom⟩

/-- Up to the old end of the file the bytes are those stored and the old ones. -/
theorem getElem?_savedBytes_of_lt {data : Bytes} {stored? : Nat → Option UInt8} {i : Nat}
    (h : i < data.length) : (savedBytes data stored?)[i]? = (stored? i).or data[i]? := by
  have hle := (length_le_savedLength data.length stored?).1
  rw [getElem?_savedBytes, if_pos (Nat.lt_of_lt_of_le h hle), List.getD_eq_getElem?_getD,
    List.getElem?_eq_getElem h]
  cases stored? i with
  | none => rfl
  | some y => rfl

namespace Pager

/-- What a process reads at the address `a` past the end of a mapped file, when the events `fs`
have happened since `q` and then `more`: the byte that was stored there last, as long as the page
has not left its frame since. If it has, or if nothing was stored, a zero. -/
structure ReadsTail (q : Pager n) (id : SpaceId) (a : Nat) (fs more : List Event)
    (b? : Option UInt8) : Prop where
  blank : q.lastStored? id a fs = none → b? = some 0
  held : ∀ y u back, LastStore id a y q fs u back → u.Held id a (back ++ more) → b? = some y
  gone : ∀ y u back, LastStore id a y q fs u back → ¬ u.Held id a (back ++ more) → b? = some 0

/-- What is in the file that was mapped at `base`, when the events `fs` have happened since it was
mapped, with `data` in it, and then the mapping was taken down. -/
structure Saves (q : Pager n) (id : SpaceId) (base : Nat) (data : Bytes) (fs : List Event)
    (saved : Bytes) : Prop where
  length : saved.length = savedLength data.length fun i => q.lastStored? id (base + i) fs
  inside : ∀ i, i < data.length →
    saved[i]? = (savedBytes data fun i => q.lastStored? id (base + i) fs)[i]?
  /-- Past the end a byte that was stored may be lost. -/
  tail : ∀ i, data.length ≤ i →
    saved[i]? = (savedBytes data fun i => q.lastStored? id (base + i) fs)[i]?
      ∨ (q.lastStored? id (base + i) fs).isSome = true ∧ saved[i]? = some 0
  /-- It is not, if the page stayed in its frame until the mapping was taken down. -/
  held : ∀ i y u back, data.length ≤ i → i < pagesFor data.length * pageSize →
    LastStore id (base + i) y q fs u back → u.Held id (base + i) back → saved[i]? = some y

/-- If nothing was stored past the end, all of the file is determined. -/
theorem Saves.eq_savedBytes {q : Pager n} {id : SpaceId} {base : Nat} {data saved : Bytes}
    {fs : List Event} (h : q.Saves id base data fs saved)
    (hnone : ∀ i, data.length ≤ i → i < pagesFor data.length * pageSize →
      q.lastStored? id (base + i) fs = none) :
    saved = savedBytes data fun i => q.lastStored? id (base + i) fs := by
  refine List.ext_getElem? fun i => ?_
  by_cases hi : i < data.length
  · exact h.inside i hi
  · rcases h.tail i (Nat.not_lt.mp hi) with heq | ⟨hsome, hzero⟩
    · exact heq
    · by_cases hin : i < pagesFor data.length * pageSize
      · rw [hnone i (Nat.not_lt.mp hi) hin] at hsome
        cases hsome
      · -- beyond the last page the file has no bytes
        have hlen : i < saved.length := Decidable.byContradiction fun hout => by
          rw [List.getElem?_eq_none (Nat.not_lt.mp hout)] at hzero
          cases hzero
        rw [h.length] at hlen
        have hle := (length_le_savedLength data.length
          fun i => q.lastStored? id (base + i) fs).2
        omega

end Pager

section Mapping

variable {q r v : Pager n} {fs more : List Event} {id : SpaceId} {m base length : Nat}
  {source : FileRef} {byte? : Nat → Option UInt8}

/-- A place in the pages of a mapping is in one of them. -/
theorem exists_place {i length : Nat} (hi : i < pagesFor length * pageSize) :
    ∃ j b, j < pagesFor length ∧ b < pageSize ∧ i = j * pageSize + b :=
  ⟨i / pageSize, i % pageSize, Nat.div_lt_of_lt_mul (Nat.mul_comm .. ▸ hi),
    Nat.mod_lt i pageSize_pos, (Nat.div_add_mod' i pageSize).symm⟩

/-- What is in the frame of the last page past the end of the file is what a process reads
there. -/
theorem readsTail_of_run (hq : q.Agrees none) (h : q.Carries id m source base length byte?)
    (hempty : ∀ j, j < pagesFor length → q.framed? id (base + j * pageSize) = none)
    (hrun : Run q fs r) (hmore : Run r more v)
    (hes : ∀ e ∈ fs ++ more, e.Spares id m source.file)
    (hsole : ∀ t, Passed q (fs ++ more) t → t.MapsOnce id m source.file)
    (hidle : ∀ a, r.lastStored? id a more = none) {i : Nat}
    (hin : i < pagesFor length * pageSize) (hout : length ≤ i) {page : Page}
    (hpage : v.framed? id (pageBase (base + i)) = some page) :
    q.ReadsTail id (base + i) fs more page.bytes[offsetInPage (base + i)]? := by
  obtain ⟨j, b, hj, hb, rfl⟩ := exists_place hin
  obtain ⟨hbase, hplace⟩ := page_of_place (j := j) h.maps.aligned hb
  rw [← Nat.add_assoc] at hpage ⊢
  -- where the frame holds zeros or what was never stored, it holds a zero
  have hzero : v.FramedTail id base j b (some 0) →
      page.bytes[offsetInPage (base + j * pageSize + b)]? = some 0 := fun htail => by
    rw [hplace]
    exact (htail page (hbase ▸ hpage)).elim (fun h => h) fun h => h
  refine ⟨fun hnone => hzero ?_, fun y u back hlast hheld => ?_, fun y u back hlast hheld => ?_⟩
  · have htail := (hrun.append hmore).framedTail hq hes hsole h hj hb hout
      (framedTail_of_gone (hempty j hj) (some 0))
    rwa [lastStored?_append hrun, hidle, hnone] at htail
  · obtain ⟨page', hpage', hbyte, _⟩ := hlast.held hrun hmore hq
      (fun e he => (hes e he).keepsDirty) (hidle _) hheld
    cases hpage.symm.trans hpage'
    exact hbyte
  · exact hzero (hlast.gone hrun hmore hq hes hsole h hj hb hout (hidle _) hheld)

section TakenDown

variable {e : Event} {t : Pager n} {data : Bytes} (hq : q.Agrees none)
  (h : q.Carries id m source base data.length fun a => data[a - base]?) (hrun : Run q fs r)
  (hes : ∀ e ∈ fs, e.Spares id m source.file)
  (hdown : e.TakesDown id m) (he : e.Permitted r) (ht : e.apply r = some t)

include hq h hrun hes hdown he ht

/-- How long the file is when the mapping was taken down after a run. -/
theorem savedLength_of_run (hlength : data.length ≠ 0)
    (hun : q.Unfilled id source base data.length)
    (hmarks : ∀ e ∈ fs, ∀ o u value, e ≠ .request (.setDirty o u value))
    (hsole : ∀ t, Passed q fs t → t.MapsOnce id m source.file) :
    (t.file source.file).data.length
      = savedLength data.length fun i => q.lastStored? id (base + i) fs := by
  have hrcarries := hrun.carries hq hes hsole h
  obtain ⟨_, hfilled, hunfilled⟩ :=
    Event.saves_file hrcarries (hrun.agrees hq) he ht hdown hlength
  rcases savedLength_cases data.length fun i => q.lastStored? id (base + i) fs with
    ⟨⟨b, hb, hstored⟩, heq⟩ | ⟨hnone, heq⟩
  · rw [heq]
    refine hfilled (hrun.filled_of_stored hq hes hsole hlength h hb ?_)
    rwa [lastPage, Nat.add_assoc]
  · rw [heq]
    refine hunfilled (hrun.unfilled_of_not_stored hq hes hmarks hsole hlength h ?_ hun)
    intro b hb
    rw [lastPage, Nat.add_assoc]
    exact hnone b hb

/-- What is in the file past its old end is the byte that was stored there last, or a zero. -/
theorem savedTail_of_run
    (hempty : ∀ j, j < pagesFor data.length → q.framed? id (base + j * pageSize) = none)
    (hsole : ∀ t, Passed q fs t → t.MapsOnce id m source.file)
    (hun : q.Unfilled id source base data.length) {i : Nat} (hi : data.length ≤ i)
    (hin : i < pagesFor data.length * pageSize) {y : UInt8}
    (hy : (t.file source.file).data[i]? = some y) :
    y = 0 ∨ q.lastStored? id (base + i) fs = some y := by
  obtain ⟨j, b, hj, hb, rfl⟩ := exists_place hin
  obtain ⟨cs, htouches, hfold, _⟩ := hrun.touches hq hes hsole h
  -- the new mapping has no page in a frame, and the file has nothing past its end
  have hstart := framedTail_of_gone (b := b) (hempty j hj) (some 0)
  have hframed := htouches.framedTail h.maps.aligned hj hb hi hstart
  have hfiled := htouches.filedTail h.maps.aligned h.shows hj hb hi hstart fun _ =>
    Or.inl (List.getElem?_eq_none (Nat.le_trans (Nat.le_of_eq hun.1) hi))
  rw [hfold] at hframed hfiled
  have htail := (Event.saves_tail (hrun.carries hq hes hsole h) (hrun.agrees hq) he ht hdown hj hb
    hi).1 hframed hfiled
  rw [hy] at htail
  rw [← Nat.add_assoc]
  rcases htail with hnone | hzero | hstored
  · cases hnone
  · exact Or.inl (Option.some.inj hzero)
  · cases hlast : q.lastStored? id (base + j * pageSize + b) fs with
    | none =>
      rw [hlast] at hstored
      exact Or.inl (Option.some.inj hstored)
    | some z =>
      rw [hlast] at hstored
      exact Or.inr hstored.symm

/-- A byte past the old end is in the file if its page stayed in its frame after it was stored. -/
theorem savedByte_of_held (hsole : ∀ t, Passed q fs t → t.MapsOnce id m source.file) {i : Nat}
    (hi : data.length ≤ i) (hin : i < pagesFor data.length * pageSize) {y : UInt8} {u : Pager n}
    {back : List Event} (hlast : LastStore id (base + i) y q fs u back)
    (hheld : u.Held id (base + i) back) : (t.file source.file).data[i]? = some y := by
  obtain ⟨j, b, hj, hb, rfl⟩ := exists_place hin
  obtain ⟨hbase, hplace⟩ := page_of_place (j := j) h.maps.aligned hb
  rw [← Nat.add_assoc] at hlast hheld
  obtain ⟨page, hpage, hbyte, hdirty⟩ := hlast.held hrun .refl hq
    (fun e he => (hes e (by rwa [List.append_nil] at he)).keepsDirty) rfl
    (by rwa [List.append_nil])
  rw [hbase] at hpage hdirty
  rw [hplace] at hbyte
  refine (Event.saves_tail (hrun.carries hq hes hsole h) (hrun.agrees hq) he ht hdown hj hb hi).2
    ⟨?_, ?_⟩
  · intro page' _ hpage'
    cases hpage.symm.trans hpage'
    exact hbyte
  · intro hclean
    rw [hdirty] at hclean
    cases hclean

end TakenDown

/-- What is in the file when the mapping is taken down after a run. -/
theorem saves_of_run {data : Bytes} (hq : q.Agrees none)
    (h : q.Carries id m source base data.length fun a => data[a - base]?)
    (hempty : ∀ j, j < pagesFor data.length → q.framed? id (base + j * pageSize) = none)
    (hlength : data.length ≠ 0) (hun : q.Unfilled id source base data.length) (hrun : Run q fs r)
    (hes : ∀ e ∈ fs, e.Spares id m source.file)
    (hmarks : ∀ e ∈ fs, ∀ o u value, e ≠ .request (.setDirty o u value))
    (hsole : ∀ t, Passed q fs t → t.MapsOnce id m source.file) {e : Event} {t : Pager n}
    (hdown : e.TakesDown id m) (he : e.Permitted r) (ht : e.apply r = some t) :
    q.Saves id base data fs (t.file source.file).data := by
  obtain ⟨hbytes, _⟩ := Event.saves_file (hrun.carries hq hes hsole h) (hrun.agrees hq) he ht hdown
    hlength
  have hlen := savedLength_of_run hq h hrun hes hdown he ht hlength hun hmarks hsole
  have hroom := (length_le_savedLength data.length fun i => q.lastStored? id (base + i) fs).2
  refine ⟨hlen, ?_, ?_, fun i y u back hi hin =>
    savedByte_of_held hq h hrun hes hdown he ht hsole hi hin⟩
  · intro i hi
    rw [hbytes i hi, Nat.add_sub_cancel_left, getElem?_savedBytes_of_lt hi]
  · intro i hi
    rw [getElem?_savedBytes]
    split
    next hin =>
      have hsome := List.getElem?_eq_getElem (hlen ▸ hin)
      rw [hsome, List.getD_eq_getElem?_getD, List.getElem?_eq_none hi, Option.getD_none]
      rcases savedTail_of_run hq h hrun hes hdown he ht hempty hsole hun hi
        (Nat.lt_of_lt_of_le hin hroom) hsome with hzero | hstored
      · rw [hzero]
        cases q.lastStored? id (base + i) fs with
        | none => exact Or.inl rfl
        | some y => exact Or.inr ⟨rfl, rfl⟩
      · rw [hstored]
        exact Or.inl rfl
    next hout =>
      rw [← hlen] at hout
      exact Or.inl (List.getElem?_eq_none (Nat.not_lt.mp hout))

end Mapping

/-- What is kept of the pages of a mapping. Take any run that maps a file of bytes, and goes on
with any events that leave the mapping in place, mark no page dirty and do not write the file
otherwise, with no other mapping of the file live. Then every range of the pages of the mapping is
read, unless the system stops: up to the end of the file each byte is the one last stored or the
one that was in the file, and past it what `ReadsTail` says. When the mapping is taken down, or
the process ends, the file holds what `Saves` says. If nothing was stored past the end, that is
determined by the bytes that were stored. -/
theorem mapped_pages_kept {s p q r : Pager n} {es fs : List Event} {id : SpaceId} {k base m : Nat}
    {data : Bytes} (hs : s.IsStart) (hbefore : Run s es p) (hid : id < p.spaces.size)
    (hdata : (p.file k).contents = .bytes data) (hlimits : (p.file k).medium? = none)
    (hmap : (mapFile id k base).run p = .done m q) (hrun : Run q fs r)
    (hspares : ∀ e ∈ fs, e.Spares id m k)
    (hmarks : ∀ e ∈ fs, ∀ o u value, e ≠ .request (.setDirty o u value))
    (hsole : ∀ t, Passed q fs t → t.MapsOnce id m k) :
    (∀ i count, i + count ≤ pagesFor data.length * pageSize →
      ((readUser id (base + i) count).run r).Meets
        (fun copied _ => ∃ bytes, copied = ⟨bytes, .ok ()⟩ ∧ bytes.length = count
          ∧ ∀ x, x < count →
            (i + x < data.length →
              bytes[x]? = (q.lastStored? id (base + (i + x)) fs).or data[i + x]?)
            ∧ (data.length ≤ i + x → q.ReadsTail id (base + (i + x)) fs
              [.request (.read id (base + i) count)] bytes[x]?))
        (fun _ _ => False)
        (fun _ => True))
      ∧ ∀ (e : Event) (t : Pager n), e.TakesDown id m → e.Permitted r → e.apply r = some t →
        q.Saves id base data fs (t.file k).data
          ∧ ((∀ i, data.length ≤ i → i < pagesFor data.length * pageSize →
              q.lastStored? id (base + i) fs = none) →
            (t.file k).data = savedBytes data fun i => q.lastStored? id (base + i) fs) := by
  have hp := hbefore.agrees hs.agrees
  have hlisted := Pager.Reachable.listed ⟨s, es, hs, hbefore⟩
  obtain ⟨hlength, hbase, handle, hcarries, hun, hempty⟩ :=
    carries_of_mapFile hp hid hlisted hdata hlimits hmap (hsole q .start)
  have hq := agrees_of_mapFile hp hid hmap
  have hr := hrun.agrees hq
  have hrcarries := hrun.carries hq hspares hsole hcarries
  refine ⟨?_, ?_⟩
  · intro i count hin
    have hread := readUser_of_carries hrcarries hr hbase hin
    revert hread
    cases hdone : (readUser id (base + i) count).run r with
    | failed e v => exact fun hread => hread.elim
    | fatal reason => exact fun _ => trivial
    | done copied v =>
      intro hread
      obtain ⟨bytes, rfl, hcount, hreads⟩ := hread
      refine ⟨bytes, rfl, hcount, fun x hx => ⟨fun hlt => ?_, fun hge => ?_⟩⟩
      · have hbyte := (hreads x hx).1 hlt
        simp only [Nat.add_sub_cancel_left] at hbyte
        exact hbyte
      · obtain ⟨page, hpage, hbyte⟩ := (hreads x hx).2 hge
        rw [hbyte]
        -- the copy is one more event, which stores nothing and leaves the mappings as they are
        obtain ⟨d, _, hd, _⟩ := hr.mappings.described id m _ 0 hrcarries.mapping
          (pagesFor_spec hlength).2.1
        have happly : (Event.request (.read id (base + i) count)).apply r = some v :=
          (state?_map Answer.copied _ _).trans (congrArg Outcome.state? hdone)
        have hmore : Run r [.request (.read id (base + i) count)] v :=
          .step ⟨lt_size_of_descriptor hd, trivial⟩ happly .refl
        refine readsTail_of_run hq hcarries hempty hrun hmore ?_ ?_ ?_ (by omega) hge hpage
        · intro e he
          rcases List.mem_append.mp he with he | he
          · exact hspares e he
          · cases List.mem_singleton.mp he
            exact ⟨trivial, by simp [Event.TakesDown], by simp⟩
        · intro t ht
          rcases ht.of_append hrun with ht | ht
          · exact hsole t ht
          · exact ht.mapsOnce hr (by simp) (hsole r hrun.passed)
        · intro a
          rw [lastStored?, happly]
          rfl
  · intro e t hdown he ht
    have hsaves := saves_of_run hq hcarries hempty hlength hun hrun hspares hmarks hsole hdown he ht
    exact ⟨hsaves, fun hnone => hsaves.eq_savedBytes hnone⟩

/-! ## A byte that is lost -/

/-- A byte is stored past the end of the file. Then the stack needs a frame, and another byte is
stored in the mapping. -/
def storedPastTheEnd : List Event :=
  [.request (.write 0 (pageSize + 100) [9]), .request (.fault 0 topPage topPage),
    .request (.write 0 (pageSize + 1) [7])]

/-- A file of three bytes is mapped, there are `n` frames, and a byte is stored past its end. -/
def Pager.pastTheEnd (n : Nat) : Pager n :=
  ((small n #[.ofBytes [1, 2, 3]] #[1]).ran [.request (.mapFile 0 0 pageSize)]).ran storedPastTheEnd

theorem spares_storedPastTheEnd : ∀ e ∈ storedPastTheEnd, e.Spares 0 0 0
    ∧ (∀ o base, e ≠ .request (.mapFile o 0 base))
    ∧ ∀ o u value, e ≠ .request (.setDirty o u value) := by
  intro e he
  simp only [storedPastTheEnd, List.mem_cons, List.not_mem_nil, or_false] at he
  rcases he with rfl | rfl | rfl
  all_goals exact ⟨⟨trivial, by simp [Event.TakesDown], by simp⟩, by simp, by simp⟩

/-- The bytes that a copy out of user memory brings. -/
def Outcome.bytes : Outcome n Copied → Bytes
  | .done copied _ => copied.bytes
  | _ => []

/-- With one frame the last byte that was stored past the end is not read back, though nobody
else uses the file: a zero is. And what is left in the file depends on the number of frames. -/
theorem tail_lost_oneFrame :
    Run threeBytesMapped storedPastTheEnd (threeBytesMapped.ran storedPastTheEnd)
      ∧ (∀ e ∈ storedPastTheEnd, e.Spares 0 0 0)
      ∧ (∀ t, Passed threeBytesMapped storedPastTheEnd t → t.MapsOnce 0 0 0)
      ∧ threeBytesMapped.lastStored? 0 (pageSize + 100) storedPastTheEnd = some 9
      ∧ ((readUser 0 (pageSize + 100) 1).run
          (threeBytesMapped.ran storedPastTheEnd)).bytes = [0]
      ∧ (((pastTheEnd 1).ran [.request (.unmapFile 0 0)]).file 0).data[100]? = some 0
      ∧ (((pastTheEnd 2).ran [.request (.unmapFile 0 0)]).file 0).data[100]? = some 9 := by
  obtain ⟨hrun, hvalues⟩ : (threeBytesMapped.run? storedPastTheEnd).isSome = true
      ∧ threeBytesMapped.lastStored? 0 (pageSize + 100) storedPastTheEnd = some 9
      ∧ ((readUser 0 (pageSize + 100) 1).run
          (threeBytesMapped.ran storedPastTheEnd)).bytes = [0]
      ∧ (((pastTheEnd 1).ran [.request (.unmapFile 0 0)]).file 0).data[100]? = some 0
      ∧ (((pastTheEnd 2).ran [.request (.unmapFile 0 0)]).file 0).data[100]? = some 9 := by
    decide +kernel
  refine ⟨run_ran hrun, fun e he => (spares_storedPastTheEnd e he).1, ?_, hvalues⟩
  exact fun t ht => ht.mapsOnce agrees_threeBytesMapped
    (fun e he => (spares_storedPastTheEnd e he).2.1) mapsOnce_threeBytesMapped

/-- With one frame a process reads what it stored up to the end of its file, and a zero where it
stored a byte past the end before its page left the frame. The file is filled up to a whole page
when the mapping is gone. -/
theorem mapped_pages_kept_oneFrame :
    ((readUser 0 (pageSize + 1) 100).run (threeBytesMapped.ran storedPastTheEnd)).Meets
        (fun copied _ => ∃ bytes, copied = ⟨bytes, .ok ()⟩ ∧ bytes[0]? = some 7
          ∧ bytes[1]? = some 3 ∧ bytes[2]? = some 0 ∧ bytes[99]? = some 0)
        (fun _ _ => False) (fun _ => True)
      ∧ (((threeBytesMapped.ran storedPastTheEnd).ran
          [.request (.unmapFile 0 0)]).file 0).data[1]? = some 7
      ∧ (((threeBytesMapped.ran storedPastTheEnd).ran
          [.request (.unmapFile 0 0)]).file 0).data.length = pageSize := by
  -- all that is computed is computed at once
  obtain ⟨hruns, hunmaps, ⟨hstored, hold, hblank⟩, hwrites, hfaults, hbyte, hidle, hevicted⟩ :
      (threeBytesMapped.run? storedPastTheEnd).isSome = true
        ∧ ((threeBytesMapped.ran storedPastTheEnd).run?
            [.request (.unmapFile 0 0)]).isSome = true
        ∧ (threeBytesMapped.lastStored? 0 (pageSize + 1) storedPastTheEnd = some 7
          ∧ threeBytesMapped.lastStored? 0 (pageSize + 2) storedPastTheEnd = none
          ∧ threeBytesMapped.lastStored? 0 (pageSize + 3) storedPastTheEnd = none)
        ∧ (threeBytesMapped.run? [.request (.write 0 (pageSize + 100) [9])]).isSome = true
        ∧ ((threeBytesMapped.ran [.request (.write 0 (pageSize + 100) [9])]).run?
            [.request (.fault 0 topPage topPage)]).isSome = true
        ∧ Event.storedByte? threeBytesMapped 0 (pageSize + 100)
            (.request (.write 0 (pageSize + 100) [9])) = some 9
        ∧ (threeBytesMapped.ran [.request (.write 0 (pageSize + 100) [9])]).lastStored? 0
            (pageSize + 100) [.request (.fault 0 topPage topPage),
              .request (.write 0 (pageSize + 1) [7])] = none
        ∧ ((threeBytesMapped.ran [.request (.write 0 (pageSize + 100) [9])]).ran
            [.request (.fault 0 topPage topPage)]).address? 0 (pageSize + 100) = none := by
    decide +kernel
  -- the state is named, so that nothing unfolds it
  obtain ⟨r, hr, hrun⟩ : ∃ r, threeBytesMapped.ran storedPastTheEnd = r
      ∧ Run threeBytesMapped storedPastTheEnd r := ⟨_, rfl, run_ran hruns⟩
  have hlast := run_ran hunmaps
  rw [hr] at hlast ⊢
  obtain ⟨hread, hdown⟩ := mapped_pages_kept (isStart_oneFrame #[.ofBytes [1, 2, 3]]) .refl
    (by decide) rfl rfl run_mapFile_threeBytes hrun
    (fun e he => (spares_storedPastTheEnd e he).1)
    (fun e he => (spares_storedPastTheEnd e he).2.2)
    fun t ht => ht.mapsOnce agrees_threeBytesMapped
      (fun e he => (spares_storedPastTheEnd e he).2.1) mapsOnce_threeBytesMapped
  obtain ⟨hsaves, _⟩ := hdown _ _ (Or.inl rfl) hlast.apply_eq.1 hlast.apply_eq.2
  -- the byte past the end is stored first, and the fault takes the frame
  have hfault := run_ran hfaults
  have hlost : LastStore 0 (pageSize + 100) 9 threeBytesMapped storedPastTheEnd
      (threeBytesMapped.ran [.request (.write 0 (pageSize + 100) [9])])
      [.request (.fault 0 topPage topPage), .request (.write 0 (pageSize + 1) [7])] :=
    .here (run_ran hwrites).apply_eq.2 hbyte hidle
  have hin : 1 + 100 ≤ pagesFor ([1, 2, 3] : Bytes).length * pageSize := by decide +kernel
  have hread := hread 1 100 hin
  refine ⟨hread.mono ?_ (fun _ _ hf => hf) fun _ _ => trivial, ?_, ?_⟩
  · intro copied _ h
    obtain ⟨bytes, hcopied, _, hbytes⟩ := h
    refine ⟨bytes, hcopied, ?_, ?_, ?_, ?_⟩
    · rw [(hbytes 0 (by decide)).1 (by decide), hstored]
      rfl
    · rw [(hbytes 1 (by decide)).1 (by decide), hold]
      rfl
    · exact ((hbytes 2 (by decide)).2 (by decide)).blank hblank
    · refine ((hbytes 99 (by decide)).2 (by decide)).gone _ _ _ hlost ?_
      intro hheld
      have hmapped := hheld _ (.within hfault.apply_eq.1 (Event.passes_of_apply hfault.apply_eq.2))
      rw [hevicted] at hmapped
      cases hmapped
  · rw [hsaves.inside 1 (by decide), getElem?_savedBytes_of_lt (by decide), hstored]
    rfl
  · rcases savedLength_cases ([1, 2, 3] : Bytes).length
      fun i => threeBytesMapped.lastStored? 0 (pageSize + i) storedPastTheEnd with
      ⟨_, hfull⟩ | ⟨hnone, _⟩
    · exact (hsaves.length.trans hfull).trans (by decide)
    · exact absurd ((hnone 1 (by decide)).symm.trans hstored) (by simp)

end DemandPaging
