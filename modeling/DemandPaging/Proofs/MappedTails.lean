import DemandPaging.Proofs.MappedFiles
/-!
# The last page of a mapping past the end of the file

The last page of a mapping goes on where its file ends, and the bytes there are not loaded from
the file: a page is loaded with zeros there. So in a frame such a byte is zero or what was
stored (`FramedTail`). When the page is written back it goes to the file as it is, so there it
is missing, zero or what was stored (`FiledTail`).

A tail byte that is stored in a frame goes to the file, if nothing else is stored in the page
before it is written back (`KeepsTail`).
-/

namespace DemandPaging

open Pager

variable {n : Nat}

namespace Pager

/-- A byte is zero, or the one in question. -/
def ZeroOr (b? x? : Option UInt8) : Prop := x? = some 0 ∨ x? = b?

/-- The byte `b` of the page `j` of a mapping, wherever the page is in a frame. -/
def FramedTail (p : Pager n) (id : SpaceId) (base j b : Nat) (b? : Option UInt8) : Prop :=
  ∀ page, p.framed? id (base + j * pageSize) = some page → ZeroOr b? page.bytes[b]?

/-- The byte of the file for the byte `b` of the page `j` of a mapping, unless the page is
dirty. -/
def FiledTail (p : Pager n) (id : SpaceId) (source : FileRef) (base j b : Nat)
    (b? : Option UInt8) : Prop :=
  p.has .dirty id (base + j * pageSize) = false →
    (p.file source.file).data[j * pageSize + b]? = none
      ∨ ZeroOr b? (p.file source.file).data[j * pageSize + b]?

/-- The byte `b` of the page `j` of a mapping is to be written to the file, or is there. -/
structure KeepsTail (p : Pager n) (id : SpaceId) (source : FileRef) (base j b : Nat)
    (b? : Option UInt8) : Prop where
  framed : ∀ page, p.has .dirty id (base + j * pageSize) = true →
    p.framed? id (base + j * pageSize) = some page → page.bytes[b]? = b?
  clean : p.has .dirty id (base + j * pageSize) = false →
    (p.file source.file).data[j * pageSize + b]? = b?

end Pager

/-- Past the end of the file a page is loaded with zeros. -/
theorem FileWindow.getElem?_view_tail {source : FileRef} {length j b : Nat} (file : OpenFile)
    (hb : b < pageSize) (hout : length ≤ j * pageSize + b) :
    ((mappingWindow source length j).view file).bytes[b]? = some 0 := by
  have hread : ¬ b < min pageSize (length - j * pageSize) := by omega
  rw [FileWindow.getElem?_view _ _ hb, mappingWindow, if_neg hread]

namespace Touch

variable {p q : Pager n} {id : SpaceId} {source : FileRef} {base length : Nat} {cs : List Change}
  {byte? : Nat → Option UInt8} {j b : Nat} {b? : Option UInt8}

theorem framedTail (h : Touch p id source base length cs q) (hbase : PageAligned base)
    (hj : j < pagesFor length) (hb : b < pageSize) (hout : length ≤ j * pageSize + b)
    (hp : p.FramedTail id base j b b?) :
    q.FramedTail id base j b (cs.foldl (Change.byteAfter id (base + j * pageSize + b)) b?) := by
  intro page' hpage'
  cases h with
  | kept hpages _ hidle =>
    rw [hidle j b hj hb]
    exact hp page' ((hpages j hj).1 ▸ hpage')
  | @loaded _ _ i _ hothers _ hframed _ _ hidle =>
    rw [hidle j b hj hb]
    by_cases hij : j = i
    · subst hij
      rw [hframed] at hpage'
      cases hpage'
      exact Or.inl (FileWindow.getElem?_view_tail _ hb hout)
    · exact hp page' ((hothers j hj hij).1 ▸ hpage')
  | @left _ _ i _ hothers _ hgone _ _ hidle =>
    rw [hidle j b hj hb]
    by_cases hij : j = i
    · subst hij
      rw [hgone] at hpage'
      cases hpage'
    · exact hp page' ((hothers j hj hij).1 ▸ hpage')
  | @saved _ _ i _ _ hothers _ _ hgone _ _ hidle =>
    rw [hidle j b hj hb]
    by_cases hij : j = i
    · subst hij
      rw [hgone] at hpage'
      cases hpage'
    · exact hp page' ((hothers j hj hij).1 ▸ hpage')
  | @stored _ i start bytes page _ hothers hfits hpage hframed =>
    rw [List.foldl_cons, List.foldl_nil]
    by_cases hij : j = i
    · subst hij
      rw [hframed] at hpage'
      cases hpage'
      rw [Page.getElem?_overwrite _ _ _ hb, Change.byteAfter_stored]
      by_cases hin : start ≤ b ∧ b < start + bytes.length
      · rw [if_pos hin, if_pos ⟨rfl, by omega, by omega⟩]
        refine Or.inr ?_
        congr 1
        omega
      · rw [if_neg hin, if_neg fun hc => hin ⟨by omega, by omega⟩]
        exact hp page hpage
    · rw [Change.byteAfter_of_other_page (hbase.add_mul i) (hbase.add_mul j) hfits
        (fun hc => page_ne hij hc.2) hb]
      exact hp page' ((hothers j hj hij).1 ▸ hpage')
  | @dirtied _ i _ _ _ hothers hframed =>
    by_cases hij : j = i
    · subst hij
      exact hp page' (hframed ▸ hpage')
    · exact hp page' ((hothers j hj hij).1 ▸ hpage')

/-- The file after a page of the mapping was written back: at a place of that page it has the
byte of the page. The pages before the last one end before the end of the file. -/
theorem getElem?_saved (hp : p.Shows id source base length byte?) {i : Nat} {page : Page}
    (hi : i < pagesFor length) (hb : b < pageSize) (hout : length ≤ j * pageSize + b)
    (hfile : p.SavedTo (mappingWindow source length i) page q) :
    (q.file source.file).data[j * pageSize + b]?
      = if j = i then page.bytes[b]? else (p.file source.file).data[j * pageSize + b]? := by
  have hnew : (q.file source.file).data
      = Bytes.overwrite (p.file source.file).data (i * pageSize) page.bytes :=
    hfile.data hp.isPlain
  rw [hnew, Bytes.getElem?_overwrite, page.length_bytes]
  by_cases hij : j = i
  · subst hij
    rw [if_pos ⟨by omega, by omega⟩, if_pos rfl, Nat.add_sub_cancel_left]
  · -- the page that was written is an earlier one
    have hlt := mul_lt_of_lt_pagesFor hi
    have hbefore : i * pageSize + pageSize ≤ j * pageSize + b := by
      unfold pageSize at *
      omega
    rw [if_neg hij, if_neg fun hc => Nat.not_lt.mpr hbefore hc.2,
      if_neg fun hc => by omega]

theorem filedTail (h : Touch p id source base length cs q) (hbase : PageAligned base)
    (hp : p.Shows id source base length byte?) (hj : j < pagesFor length) (hb : b < pageSize)
    (hout : length ≤ j * pageSize + b) (hframed : p.FramedTail id base j b b?)
    (hfiled : p.FiledTail id source base j b b?) :
    q.FiledTail id source base j b
      (cs.foldl (Change.byteAfter id (base + j * pageSize + b)) b?) := by
  intro hclean'
  cases h with
  | kept hpages hfile hidle =>
    rw [hidle j b hj hb, hfile.data]
    exact hfiled ((hpages j hj).2 ▸ hclean')
  | @loaded _ _ i _ hothers hclean _ _ hfile hidle =>
    rw [hidle j b hj hb, hfile.data]
    by_cases hij : j = i
    · exact hfiled (hij ▸ hclean)
    · exact hfiled ((hothers j hj hij).2 ▸ hclean')
  | @left _ _ i _ hothers hclean _ _ hfile hidle =>
    rw [hidle j b hj hb, hfile.data]
    by_cases hij : j = i
    · exact hfiled (hij ▸ hclean)
    · exact hfiled ((hothers j hj hij).2 ▸ hclean')
  | @saved _ _ i page hi hothers _ hpage _ _ hfile hidle =>
    rw [hidle j b hj hb, getElem?_saved hp hi hb hout hfile]
    split
    next hij =>
      subst hij
      exact Or.inr (hframed page hpage)
    next hij => exact hfiled ((hothers j hj hij).2 ▸ hclean')
  | @stored _ i start bytes page _ hothers hfits _ _ hdirty hfile =>
    rw [hfile.data, List.foldl_cons, List.foldl_nil]
    by_cases hij : j = i
    · rw [hij, hdirty] at hclean'
      cases hclean'
    · rw [Change.byteAfter_of_other_page (hbase.add_mul i) (hbase.add_mul j) hfits
        (fun hc => page_ne hij hc.2) hb]
      exact hfiled ((hothers j hj hij).2 ▸ hclean')
  | @dirtied _ i _ _ _ hothers _ hdirty hfile =>
    rw [hfile.data]
    by_cases hij : j = i
    · subst hij
      refine hfiled (Bool.eq_false_iff.mpr ?_)
      intro hwas
      rw [hdirty hwas] at hclean'
      cases hclean'
    · exact hfiled ((hothers j hj hij).2 ▸ hclean')

theorem keepsTail_of_alike (h : p.KeepsTail id source base j b b?)
    (hsame : Alike p q id (base + j * pageSize))
    (hbyte : (q.file source.file).data[j * pageSize + b]?
      = (p.file source.file).data[j * pageSize + b]?) : q.KeepsTail id source base j b b? where
  framed page hdirty hpage := h.framed page (hsame.2 ▸ hdirty) (hsame.1 ▸ hpage)
  clean hclean := hbyte.trans (h.clean (hsame.2 ▸ hclean))

theorem keepsTail_of_clean (hclean : q.has .dirty id (base + j * pageSize) = false)
    (hbyte : (q.file source.file).data[j * pageSize + b]? = b?) :
    q.KeepsTail id source base j b b? where
  framed _ hdirty _ := absurd (hclean.symm.trans hdirty) (by simp)
  clean _ := hbyte

/-- A move that stores nothing and marks nothing keeps a byte that is to be written. -/
theorem keepsTail (h : Touch p id source base length cs q)
    (hp : p.Shows id source base length byte?) (hj : j < pagesFor length) (hb : b < pageSize)
    (hout : length ≤ j * pageSize + b)
    (hcs : ∀ c ∈ cs, (∀ o u start part, c ≠ .stored o u start part)
      ∧ ∀ o u value, c ≠ .dirtied o u value)
    (hkeeps : p.KeepsTail id source base j b b?) : q.KeepsTail id source base j b b? := by
  cases h with
  | kept hpages hfile => exact keepsTail_of_alike hkeeps (hpages j hj) (by rw [hfile.data])
  | @loaded _ _ i _ hothers hwas _ hafter hfile =>
    by_cases hij : j = i
    · subst hij
      exact keepsTail_of_clean hafter (by rw [hfile.data, hkeeps.clean hwas])
    · exact keepsTail_of_alike hkeeps (hothers j hj hij) (by rw [hfile.data])
  | @left _ _ i _ hothers hwas _ hafter hfile =>
    by_cases hij : j = i
    · subst hij
      exact keepsTail_of_clean hafter (by rw [hfile.data, hkeeps.clean hwas])
    · exact keepsTail_of_alike hkeeps (hothers j hj hij) (by rw [hfile.data])
  | @saved _ _ i page hi hothers hwas hpage _ hafter hfile =>
    have hbyte := getElem?_saved hp hi hb hout hfile
    by_cases hij : j = i
    · subst hij
      exact keepsTail_of_clean hafter (hbyte.trans ((if_pos rfl).trans
        (hkeeps.framed page hwas hpage)))
    · exact keepsTail_of_alike hkeeps (hothers j hj hij) (hbyte.trans (if_neg hij))
  | stored => exact absurd rfl ((hcs _ (List.mem_singleton_self _)).1 _ _ _ _)
  | dirtied => exact absurd rfl ((hcs _ (List.mem_singleton_self _)).2 _ _ _)

/-- Where a byte of the last page is stored the page becomes dirty. -/
theorem dirty_of_stored (h : Touch p id source base length cs q) (hbase : PageAligned base)
    (hlength : length ≠ 0) (hb : b < pageSize)
    (hstored : (cs.foldl (Change.byteAfter id (lastPage base length + b)) none).isSome = true) :
    q.has .dirty id (lastPage base length) = true := by
  have hlast : pagesFor length - 1 < pagesFor length :=
    Nat.sub_lt (pagesFor_spec hlength).2.1 Nat.one_pos
  have hidle : ¬ Idle id base (pagesFor length) cs := by
    intro hidle
    rw [lastPage, hidle _ b hlast hb] at hstored
    cases hstored
  cases h with
  | kept _ _ h => exact absurd h hidle
  | loaded _ _ _ _ _ _ h => exact absurd h hidle
  | left _ _ _ _ _ _ h => exact absurd h hidle
  | saved _ _ _ _ _ _ _ h => exact absurd h hidle
  | @stored _ i start bytes _ _ _ hfits _ _ hdirty =>
    by_cases hi : pagesFor length - 1 = i
    · rw [lastPage, hi]
      exact hdirty
    · rw [List.foldl_cons, List.foldl_nil, lastPage, Change.byteAfter_of_other_page
        (hbase.add_mul i) (hbase.add_mul _) hfits (fun hc => page_ne hi hc.2) hb] at hstored
      cases hstored
  | dirtied => cases hstored

end Touch

namespace Touches

variable {p q : Pager n} {id : SpaceId} {source : FileRef} {base length : Nat} {cs : List Change}
  {byte? : Nat → Option UInt8} {j b : Nat} {b? : Option UInt8}

theorem framedTail (h : Touches id source base length p cs q) (hbase : PageAligned base)
    (hj : j < pagesFor length) (hb : b < pageSize) (hout : length ≤ j * pageSize + b)
    (hp : p.FramedTail id base j b b?) :
    q.FramedTail id base j b (cs.foldl (Change.byteAfter id (base + j * pageSize + b)) b?) := by
  induction h with
  | refl => exact hp
  | step _ touch ih =>
    rw [List.foldl_append]
    exact touch.framedTail hbase hj hb hout ih

theorem filedTail (h : Touches id source base length p cs q) (hbase : PageAligned base)
    (hp : p.Shows id source base length byte?) (hj : j < pagesFor length) (hb : b < pageSize)
    (hout : length ≤ j * pageSize + b) (hframed : p.FramedTail id base j b b?)
    (hfiled : p.FiledTail id source base j b b?) :
    q.FiledTail id source base j b
      (cs.foldl (Change.byteAfter id (base + j * pageSize + b)) b?) := by
  induction h with
  | refl => exact hfiled
  | step h touch ih =>
    rw [List.foldl_append]
    exact touch.filedTail hbase (h.shows hbase hp) hj hb hout
      (h.framedTail hbase hj hb hout hframed) ih

theorem keepsTail (h : Touches id source base length p cs q) (hbase : PageAligned base)
    (hp : p.Shows id source base length byte?) (hj : j < pagesFor length) (hb : b < pageSize)
    (hout : length ≤ j * pageSize + b)
    (hcs : ∀ c ∈ cs, (∀ o u start part, c ≠ .stored o u start part)
      ∧ ∀ o u value, c ≠ .dirtied o u value)
    (hkeeps : p.KeepsTail id source base j b b?) : q.KeepsTail id source base j b b? := by
  induction h with
  | refl => exact hkeeps
  | step h touch ih =>
    exact touch.keepsTail (h.shows hbase hp) hj hb hout
      (fun c hc => hcs c (List.mem_append_right _ hc))
      (ih fun c hc => hcs c (List.mem_append_left _ hc))

/-- Once a byte of the last page was stored, the file is filled up or will be. -/
theorem filled_of_stored (h : Touches id source base length p cs q) (hbase : PageAligned base)
    (hlength : length ≠ 0) (hp : p.Shows id source base length byte?) (hb : b < pageSize)
    (hstored : (cs.foldl (Change.byteAfter id (lastPage base length + b)) none).isSome = true) :
    q.Filled id source base length := by
  induction h with
  | refl => cases hstored
  | @step _ _ cs ds h touch ih =>
    rw [List.foldl_append] at hstored
    cases hfront : cs.foldl (Change.byteAfter id (lastPage base length + b)) none with
    | some y =>
      exact touch.filled hlength (h.shows hbase hp) (ih (by rw [hfront, Option.isSome_some]))
    | none =>
      rw [hfront] at hstored
      exact Or.inr (touch.dirty_of_stored hbase hlength hb hstored)

end Touches

end DemandPaging
