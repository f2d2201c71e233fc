import DemandPaging.Proofs.CallSequences
import DemandPaging.Proofs.OpenHandles
import Mathlib.Data.List.Induction
/-!
# A file in which the last writer wins

The handles of a file share its bytes. Whatever was called through them, a byte of the file is the
one that was written there last, else the one that was there at first, else zero (`byteAt`), and the
file is as long as it has to be for all that was written.

`Stores` is the record of a sequence of calls, as it shows in the file. `Stores.serve` adds one call
to it, `stores_serveAll` any sequence of them, and `last_writer_wins` says what comes of it for the
next read, write and opening.
-/

namespace DemandPaging

theorem Bytes.getD_overwrite (bytes : Bytes) (start : Nat) (patch : Bytes) (i : Nat) :
    (overwrite bytes start patch)[i]?.getD 0
      = if start ≤ i ∧ i < start + patch.length then patch[i - start]?.getD 0
        else bytes[i]?.getD 0 := by
  rw [getElem?_overwrite]
  split
  · rfl
  · split
    next hgap =>
      rw [List.getElem?_eq_none hgap.1]
      rfl
    next => rfl

namespace OpenFile

/-! ## One file -/

theorem isPlain_ofBytes (data : Bytes) : (ofBytes data).IsPlain := ⟨rfl, rfl⟩

namespace IsPlain

variable {f : OpenFile}

theorem length_eq (h : f.IsPlain) : f.length = f.data.length := by
  unfold OpenFile.length
  rw [h.medium?]
  rfl

/-- A read fills the front of the buffer as far as the file goes, and leaves the rest. -/
theorem readInto (h : f.IsPlain) (offset : Nat) (buffer : Bytes) :
    ∃ count filled, f.readInto offset buffer = (count, filled)
      ∧ count = min buffer.length (f.data.length - offset)
      ∧ filled.length = buffer.length
      ∧ (∀ i, i < count → filled[i]? = f.data[offset + i]?)
      ∧ ∀ i, count ≤ i → filled[i]? = buffer[i]? := by
  have hcount : (f.read offset buffer.length).length
      = min buffer.length (f.data.length - offset) := by
    rw [h.read, Bytes.length_slice]
  refine ⟨_, _, rfl, hcount, ?_, fun i hi => ?_, fun i hi => ?_⟩
  · rw [Bytes.length_overwrite, hcount]
    omega
  · rw [Bytes.getElem?_overwrite, if_pos (by omega), h.read, Nat.sub_zero, Bytes.getElem?_slice,
      if_pos (by omega)]
  · rw [Bytes.getElem?_overwrite, if_neg (by omega), if_neg (by omega)]

/-- One more handle is opened, the next one. -/
theorem open?_eq (h : f.IsPlain) :
    f.open? = some (f.nextHandle,
      { f with handles := f.handles ++ [f.nextHandle], nextHandle := f.nextHandle + 1 }) := by
  have hreopens : f.reopens = true := by
    unfold reopens
    rw [h.medium?]
  unfold open?
  rw [if_pos hreopens]

end IsPlain

/-! ## Calls -/

/-- A call through a handle of a file. -/
inductive Call where
  | write (handle offset : Nat) (data : Bytes)
  | read (handle offset : Nat) (buffer : Bytes)
  | length (handle : Nat)
  | reopen (handle : Nat)
  | close (handle : Nat)
  deriving DecidableEq

namespace Call

/-- The handle that the call goes through. -/
def handle : Call → Nat
  | .write handle _ _ | .read handle _ _ | .length handle | .reopen handle | .close handle => handle

/-- Where a write ends. -/
def end? : Call → Option Nat
  | .write _ offset data => some (offset + data.length)
  | .read .. | .length _ | .reopen _ | .close _ => none

/-- What a write puts at a position, if it reaches there. -/
def byteAt? (i : Nat) : Call → Option UInt8
  | .write _ offset data => if offset ≤ i then data[i - offset]? else none
  | .read .. | .length _ | .reopen _ | .close _ => none

/-- Whether a handle is opened. -/
def opens : Call → Bool
  | .reopen _ => true
  | .write .. | .read .. | .length _ | .close _ => false

end Call

/-- How many handles have been opened after the calls. A file has one from the beginning. -/
def opened (calls : List Call) : Nat := 1 + calls.countP Call.opens

/-- The byte at a position: the one that was written there last, else the one that was there at
first, else zero. -/
def byteAt (data : Bytes) (calls : List Call) (i : Nat) : UInt8 :=
  (lastOf? (Call.byteAt? i) calls).getD (data[i]?.getD 0)

/-- Every call goes through a handle that was opened before it and has not been closed. -/
def OverOpenHandles (calls : List Call) : Prop :=
  ∀ i (h : i < calls.length), (calls.get ⟨i, h⟩).handle < opened (calls.take i)
    ∧ Call.close (calls.get ⟨i, h⟩).handle ∉ calls.take i

instance (calls : List Call) : Decidable (OverOpenHandles calls) :=
  inferInstanceAs (Decidable (∀ i (h : i < calls.length),
    (calls.get ⟨i, h⟩).handle < opened (calls.take i)
      ∧ Call.close (calls.get ⟨i, h⟩).handle ∉ calls.take i))

theorem OverOpenHandles.of_concat {calls : List Call} {call : Call}
    (h : OverOpenHandles (calls ++ [call])) :
    OverOpenHandles calls ∧ call.handle < opened calls ∧ Call.close call.handle ∉ calls := by
  refine ⟨fun i hi => ?_, ?_⟩
  · have hcall := h i (by rw [List.length_append]; omega)
    simpa only [List.get_eq_getElem, List.getElem_append_left hi,
      List.take_append_of_le_length (Nat.le_of_lt hi)] using hcall
  · have hcall := h calls.length (by simp)
    simpa only [List.get_eq_getElem, List.getElem_concat_length, List.take_left'] using hcall

/-- The file after a call. -/
def serve (f : OpenFile) : Call → OpenFile
  | .write _ offset data => (f.write offset data).2
  | .read .. | .length _ => f
  | .reopen _ =>
    match f.open? with
    | some (_, g) => g
    | none => f
  | .close handle => f.close handle

/-- The file after a sequence of calls. -/
def serveAll (f : OpenFile) (calls : List Call) : OpenFile := calls.foldl serve f

/-- A call leaves a file plain and makes it no shorter. -/
theorem IsPlain.serve {f : OpenFile} (h : f.IsPlain) (call : Call) :
    (f.serve call).IsPlain ∧ f.length ≤ (f.serve call).length := by
  cases call with
  | write handle offset data =>
    have hplain : ((f.serve (.write handle offset data))).IsPlain := by
      unfold OpenFile.serve
      simp only [h.write]
      exact ⟨rfl, h.medium?⟩
    refine ⟨hplain, ?_⟩
    rw [hplain.length_eq, h.length_eq]
    unfold OpenFile.serve
    simp only [h.write]
    exact Nat.le_trans (Nat.le_max_left ..) (Nat.le_of_eq (Bytes.length_overwrite ..).symm)
  | read | length => exact ⟨h, Nat.le_refl _⟩
  | reopen =>
    unfold OpenFile.serve
    simp only [h.open?_eq]
    exact ⟨⟨h.isConsole, h.medium?⟩, Nat.le_refl _⟩
  | close => exact ⟨⟨h.isConsole, h.medium?⟩, Nat.le_refl _⟩

/-! ## The bytes -/

theorem foldl_max_concat (calls : List Call) (call : Call) (length : Nat) :
    ((calls ++ [call]).filterMap Call.end?).foldl max length
      = max ((calls.filterMap Call.end?).foldl max length) (call.end?.getD 0) := by
  rw [List.filterMap_append, List.foldl_append]
  cases hend : call.end? with
  | none => simp [hend]
  | some last => simp [hend]

theorem byteAt_concat (data : Bytes) (calls : List Call) (call : Call) (i : Nat) :
    byteAt data (calls ++ [call]) i = (call.byteAt? i).getD (byteAt data calls i) :=
  getD_lastOf?_concat (Call.byteAt? i) calls call _

/-- The file held `data` at first and was written to by the calls. -/
structure Stores (data : Bytes) (calls : List Call) (f : OpenFile) : Prop where
  isPlain : f.IsPlain
  length_eq : f.data.length = (calls.filterMap Call.end?).foldl max data.length
  byte_eq : ∀ i, f.data[i]?.getD 0 = byteAt data calls i

namespace Stores

variable {data : Bytes} {calls : List Call} {f : OpenFile}

theorem created (data : Bytes) : Stores data [] (ofBytes data) :=
  ⟨isPlain_ofBytes data, rfl, fun _ => rfl⟩

theorem written (h : Stores data calls f) (handle offset : Nat) (patch : Bytes) :
    Stores data (calls ++ [.write handle offset patch]) (f.write offset patch).2 := by
  rw [h.isPlain.write]
  refine ⟨⟨rfl, h.isPlain.medium?⟩, ?_, fun i => ?_⟩
  · rw [foldl_max_concat, ← h.length_eq]
    exact Bytes.length_overwrite ..
  · rw [byteAt_concat, ← h.byte_eq]
    refine (Bytes.getD_overwrite ..).trans ?_
    show _ = (if offset ≤ i then patch[i - offset]? else none).getD _
    by_cases hin : offset ≤ i ∧ i < offset + patch.length
    · rw [if_pos hin, if_pos hin.1, List.getElem?_eq_getElem (by omega)]
      rfl
    · rw [if_neg hin]
      split
      next hle =>
        have hout : patch[i - offset]? = none := List.getElem?_eq_none (by omega)
        rw [hout]
        rfl
      next => rfl

/-- A call that is no write leaves the bytes. -/
theorem unwritten (h : Stores data calls f) {call : Call} (hend : call.end? = none)
    (hbyte : ∀ i, call.byteAt? i = none) {g : OpenFile} (hplain : g.IsPlain)
    (hdata : g.data = f.data) : Stores data (calls ++ [call]) g := by
  refine ⟨hplain, ?_, fun i => ?_⟩
  · rw [foldl_max_concat, hend, ← h.length_eq, hdata]
    exact (Nat.max_zero _).symm
  · rw [byteAt_concat, hbyte, ← h.byte_eq, hdata]
    rfl

theorem serve (h : Stores data calls f) (call : Call) :
    Stores data (calls ++ [call]) (f.serve call) := by
  have hplain := (h.isPlain.serve call).1
  cases call with
  | write handle offset patch => exact h.written handle offset patch
  | read | length | close => exact h.unwritten rfl (fun _ => rfl) hplain rfl
  | reopen =>
    refine h.unwritten rfl (fun _ => rfl) hplain ?_
    unfold OpenFile.serve
    simp only [h.isPlain.open?_eq]
    rfl

end Stores

/-! ## The handles -/

theorem opened_concat (calls : List Call) (call : Call) :
    opened (calls ++ [call]) = opened calls + if call.opens then 1 else 0 := by
  unfold opened
  rw [List.countP_append, List.countP_singleton, Nat.add_assoc]

/-- The handles of the file were opened and closed by the calls. -/
structure Opens (calls : List Call) (f : OpenFile) : Prop where
  numbered : f.Numbered
  next_eq : f.nextHandle = opened calls
  open_iff : ∀ handle, handle ∈ f.handles ↔ handle < opened calls ∧ Call.close handle ∉ calls
  lt_of_closed : ∀ handle, Call.close handle ∈ calls → handle < opened calls

namespace Opens

variable {calls : List Call} {f : OpenFile}

theorem created (data : Bytes) : Opens [] (ofBytes data) where
  numbered := ⟨List.pairwise_singleton .., fun handle hmem => by simp_all [ofBytes]⟩
  next_eq := rfl
  open_iff handle := by
    show handle ∈ [0] ↔ handle < 1 ∧ Call.close handle ∉ []
    simp
  lt_of_closed _ hmem := absurd hmem List.not_mem_nil

/-- A call that neither opens nor closes a handle leaves the handles. -/
theorem untouched (h : Opens calls f) {call : Call} (hopens : call.opens = false)
    (hclose : ∀ handle, Call.close handle ≠ call) {g : OpenFile} (hsame : f.SameHandles g) :
    Opens (calls ++ [call]) g := by
  have hopened : opened (calls ++ [call]) = opened calls := by
    rw [opened_concat, hopens]
    rfl
  have hclosed : ∀ handle, Call.close handle ∈ calls ++ [call] ↔ Call.close handle ∈ calls := by
    intro handle
    rw [List.mem_append, List.mem_singleton]
    exact or_iff_left (hclose handle)
  refine ⟨hsame.numbered h.numbered, ?_, fun handle => ?_, fun handle => ?_⟩
  · rw [hsame.2, h.next_eq, hopened]
  · rw [hsame.1, h.open_iff, hopened, hclosed]
  · rw [hclosed, hopened]
    exact h.lt_of_closed handle

/-- A handle that is opened is a new one. -/
theorem reopened (h : Opens calls f) (handle : Nat) {g : OpenFile}
    (hopen : f.open? = some (f.nextHandle, g)) : Opens (calls ++ [.reopen handle]) g := by
  have hopened : opened (calls ++ [.reopen handle]) = opened calls + 1 := opened_concat ..
  have hclosed : ∀ other, Call.close other ∈ calls ++ [.reopen handle]
      ↔ Call.close other ∈ calls := by
    simp
  obtain ⟨-, hg⟩ := of_open?_eq_some hopen
  refine ⟨(h.numbered.open? hopen).1, ?_, fun other => ?_, fun other hother => ?_⟩
  · rw [hg, hopened, h.next_eq]
  · rw [hopened, hclosed, hg, List.mem_append, List.mem_singleton, h.open_iff, h.next_eq]
    have hnew : other = opened calls → Call.close other ∉ calls := fun heq hmem =>
      absurd (h.lt_of_closed other hmem) (by omega)
    constructor
    · rintro (⟨hlt, hopen⟩ | heq)
      · exact ⟨Nat.lt_succ_of_lt hlt, hopen⟩
      · exact ⟨by omega, hnew heq⟩
    · rintro ⟨hlt, hopen⟩
      rcases Nat.lt_succ_iff_lt_or_eq.mp hlt with hlt | heq
      · exact Or.inl ⟨hlt, hopen⟩
      · exact Or.inr heq
  · rw [hopened]
    exact Nat.lt_succ_of_lt (h.lt_of_closed other ((hclosed other).mp hother))

theorem closed (h : Opens calls f) {handle : Nat} (hhandle : handle < opened calls) :
    Opens (calls ++ [.close handle]) (f.close handle) := by
  have hopened : opened (calls ++ [.close handle]) = opened calls := opened_concat ..
  have hclosed : ∀ other, Call.close other ∈ calls ++ [.close handle]
      ↔ Call.close other ∈ calls ∨ other = handle := by
    simp
  refine ⟨h.numbered.close handle, ?_, fun other => ?_, fun other hother => ?_⟩
  · rw [hopened]
    exact h.next_eq
  · rw [hopened, hclosed]
    refine (h.numbered.nodup.mem_erase_iff).trans ?_
    rw [h.open_iff, not_or, and_comm, and_assoc]
  · rw [hopened]
    rcases (hclosed other).mp hother with hother | rfl
    · exact h.lt_of_closed other hother
    · exact hhandle

theorem serve (h : Opens calls f) (hplain : f.IsPlain) {call : Call}
    (hhandle : call.handle < opened calls) : Opens (calls ++ [call]) (f.serve call) := by
  cases call with
  | write handle offset patch =>
    exact h.untouched rfl (fun _ => Call.noConfusion) (f.sameHandles_write offset patch)
  | read | length => exact h.untouched rfl (fun _ => Call.noConfusion) ⟨rfl, rfl⟩
  | reopen handle =>
    unfold OpenFile.serve
    simp only [hplain.open?_eq]
    exact h.reopened handle hplain.open?_eq
  | close handle => exact h.closed hhandle

end Opens

/-! ## Any sequence of calls -/

/-- The bytes and the handles are those that any sequence of calls on a new file leaves. -/
theorem stores_opens_serveAll (data : Bytes) {calls : List Call} (hcalls : OverOpenHandles calls) :
    Stores data calls ((ofBytes data).serveAll calls)
      ∧ Opens calls ((ofBytes data).serveAll calls) := by
  induction calls using List.reverseRecOn with
  | nil => exact ⟨.created data, .created data⟩
  | append_singleton calls call ih =>
    obtain ⟨hbefore, hhandle, -⟩ := hcalls.of_concat
    obtain ⟨hstores, hopens⟩ := ih hbefore
    unfold serveAll at hstores hopens ⊢
    rw [List.foldl_append]
    exact ⟨hstores.serve call, hopens.serve hstores.isPlain hhandle⟩

/-- No sequence of calls makes a file shorter. -/
theorem length_le_serveAll {f : OpenFile} (h : f.IsPlain) (calls : List Call) :
    f.length ≤ (f.serveAll calls).length := by
  induction calls generalizing f with
  | nil => exact Nat.le_refl _
  | cons call rest ih =>
    obtain ⟨hplain, hle⟩ := h.serve call
    exact Nat.le_trans hle (ih hplain)

/-- **In a file the last writer wins.** After any sequence of calls on a new file, each through a
handle that is open, the file is as long as its first contents or the farthest end of a write, and
no later call makes it shorter. A write writes everything. A read answers how much of the buffer
lies before the end of the file and fills that much of its front, each place with the byte that was
written there last, through whatever handle, else with the byte that was there at first, else with
zero; the rest of the buffer is as it was. The open handles are those that were opened and not
closed, and one more can always be opened. -/
theorem last_writer_wins (data : Bytes) {calls : List Call} (hcalls : OverOpenHandles calls) :
    ∃ f, f = (ofBytes data).serveAll calls
      ∧ f.length = (calls.filterMap Call.end?).foldl max data.length
      ∧ (∀ later, f.length ≤ (f.serveAll later).length)
      ∧ (∀ offset patch, (f.write offset patch).1 = patch.length)
      ∧ (∀ offset buffer, ∃ count filled, f.readInto offset buffer = (count, filled)
        ∧ count = min buffer.length (f.length - offset)
        ∧ filled.length = buffer.length
        ∧ (∀ i, i < count → filled[i]? = some (byteAt data calls (offset + i)))
        ∧ ∀ i, count ≤ i → filled[i]? = buffer[i]?)
      ∧ (∀ handle, handle ∈ f.handles ↔ handle < opened calls ∧ Call.close handle ∉ calls)
      ∧ f.handles.length
        = (List.range (opened calls)).countP (fun handle => Call.close handle ∉ calls)
      ∧ ∃ g, f.open? = some (opened calls, g) := by
  obtain ⟨hstores, hopens⟩ := stores_opens_serveAll data hcalls
  have hplain := hstores.isPlain
  refine ⟨_, rfl, hplain.length_eq.trans hstores.length_eq, length_le_serveAll hplain,
    fun offset patch => ?_, fun offset buffer => ?_, hopens.open_iff, ?_, ?_⟩
  · rw [hplain.write]
  · obtain ⟨count, filled, hread, hcount, hlength, hfront, hrest⟩ := hplain.readInto offset buffer
    refine ⟨count, filled, hread, ?_, hlength, fun i hi => ?_, hrest⟩
    · rw [hcount, hplain.length_eq]
    · have hbyte := hstores.byte_eq (offset + i)
      rw [List.getElem?_eq_getElem (by omega)] at hbyte
      rw [hfront i hi, ← hbyte, List.getElem?_eq_getElem (by omega)]
      rfl
  · exact length_eq_countP hopens.numbered.nodup fun handle => by
      rw [hopens.open_iff, decide_eq_true_iff]
  · rw [hplain.open?_eq, hopens.next_eq]
    exact ⟨_, rfl⟩

/-- What is written through a second handle, beyond the end and over what is there, is read through
the first one after the second is closed. -/
theorem last_writer_wins_twoHandles :
    ∃ f, f = (ofBytes [1, 2, 3]).serveAll
        [.reopen 0, .write 1 5 [9], .write 0 1 [7, 8], .write 1 2 [6], .close 1]
      ∧ f.length = 6
      ∧ (∃ filled, f.readInto 1 [40, 41, 42, 43, 44, 45, 46] = (5, filled)
        ∧ filled[0]? = some 7 ∧ filled[1]? = some 6 ∧ filled[3]? = some 0 ∧ filled[5]? = some 45)
      ∧ f.handles.length = 1 := by
  have hcalls : OverOpenHandles
      [.reopen 0, .write 1 5 [9], .write 0 1 [7, 8], .write 1 2 [6], .close 1] := by
    decide
  obtain ⟨f, hf, hlength, -, -, hread, -, hhandles, -⟩ := last_writer_wins [1, 2, 3] hcalls
  have hsix : f.length = 6 := hlength.trans (by decide)
  obtain ⟨count, filled, hfilled, hcount, -, hfront, hrest⟩ :=
    hread 1 [40, 41, 42, 43, 44, 45, 46]
  have hfive : count = 5 := by
    rw [hcount, hsix]
    rfl
  subst hfive
  refine ⟨f, hf, hsix, ⟨filled, hfilled, ?_, ?_, ?_, hrest 5 (by decide)⟩, ?_⟩
  · exact (hfront 0 (by decide)).trans (by decide)
  · exact (hfront 1 (by decide)).trans (by decide)
  · exact (hfront 3 (by decide)).trans (by decide)
  · exact hhandles.trans (by decide)

end OpenFile

end DemandPaging
