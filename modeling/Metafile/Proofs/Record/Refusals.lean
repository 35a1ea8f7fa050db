import Metafile.Proofs.Record.Framing

/-!
# `Metafile.Proofs.Record.Refusals`: what a refused stream is refused for

A survey reads record headers, looks at the kinds of records, and reads the changes of the world
transform inside of brackets. Whatever is wrong with a header breaks the framing, and so does
whatever is wrong with the fields of a change. One fault is passed on as it is: that there is no
place behind the header of a record. But every record that is cut off a stream has its header
(`Entry.header_le_size`), so this fault does not occur.

`Survey.ofBytes_eq_error` puts these together: every refusal is structural.
-/

set_option autoImplicit false

namespace Metafile.Record

/-- A stream off which no record can be taken is broken there, whatever the reason is. -/
theorem Entry.next_eq_error {offset : Nat} {stream : Bytes} {fault : Fault}
    (h : Entry.next offset stream = .error fault) : ∃ cause, fault = .structural cause := by
  unfold next at h
  split at h
  · exact ⟨_, (Except.error.inj h).symm⟩
  · split at h
    · exact ⟨_, (Except.error.inj h).symm⟩
    · split at h
      · exact ⟨_, (Except.error.inj h).symm⟩
      · cases h

/-- A stream that cannot be cut into records is broken. -/
theorem Entry.cut_eq_error {offset : Nat} {stream : Bytes} {fault : Fault}
    (h : (Entry.cut offset stream).2 = some fault) : ∃ cause, fault = .structural cause := by
  induction offset, stream using Entry.cut.induct with
  | case1 offset stream hempty =>
      rw [Entry.cut, if_pos hempty] at h
      exact ⟨_, (Option.some.inj h).symm⟩
  | case2 offset stream hempty broken hnext =>
      rw [cut_of_broken hempty hnext] at h
      obtain rfl : broken = fault := Option.some.inj h
      exact next_eq_error hnext
  | case3 offset stream hempty e rest hnext hend =>
      rw [cut_of_next hempty hnext, if_pos hend] at h
      cases h
  | case4 offset stream hempty e rest hnext hend _ _ _ ih =>
      rw [cut_of_next hempty hnext, if_neg hend] at h
      exact ih h

/-- A change inside of a bracket can only break the framing, if its record has a header. -/
theorem deferredChange_eq_error {kind : Kind} {body : Bytes} {fault : Fault}
    (hheader : headerBytes ≤ body.length) (h : deferredChange kind body = .error fault) :
    ∃ cause, fault = .structural cause := by
  -- the place behind the header is there, so nothing is passed on
  have hseek : Cursor.seek headerBytes (Cursor.start body) =
      .ok ((), ⟨body, headerBytes, body.drop headerBytes, hheader, rfl⟩) := dif_pos hheader
  unfold deferredChange at h
  rw [hseek] at h
  change ((transformChange kind _).mapError Fault.framing >>= fun p => pure p.1) = _ at h
  generalize transformChange kind _ = read at h
  cases read with
  | error broken => exact ⟨_, (Except.error.inj h).symm⟩
  | ok p => cases h

namespace Walk

/-- A record that is walked over in vain is a header in the wrong place, or no header where one is
due, or a change that is cut short. -/
theorem observe_eq_error {w : Walk} {e : Entry} {fault : Fault} (hheader : headerBytes ≤ e.size)
    (h : w.observe e = .error fault) : ∃ cause, fault = .structural cause := by
  rcases of_bind_eq_error h with hcheck | ⟨_, _, hnote⟩
  · unfold checkHeader at hcheck
    split at hcheck
    · exact ⟨_, (Except.error.inj hcheck).symm⟩
    · exact ⟨_, (Except.error.inj hcheck).symm⟩
    · cases hcheck
  · unfold note at hnote
    -- a header, a bracket and a comment are noted without reading on
    split at hnote
    · cases hnote
    · cases hnote
    · cases hnote
    · cases hnote
    · split at hnote
      · split at hnote
        · cases hnote
        · rename_i refused hread
          obtain rfl : refused = fault := Except.error.inj hnote
          exact deferredChange_eq_error hheader hread
      · split at hnote <;> cases hnote

/-- The walk over records that have their headers is given up for a broken stream only. -/
theorem foldlM_observe_eq_error {entries : List Entry} {w : Walk} {fault : Fault}
    (hheaders : ∀ e ∈ entries, headerBytes ≤ e.size)
    (h : entries.foldlM observe w = .error fault) : ∃ cause, fault = .structural cause := by
  induction entries generalizing w with
  | nil => cases h
  | cons e rest ih =>
      rw [List.foldlM_cons] at h
      obtain ⟨hfirst, hrest⟩ := List.forall_mem_cons.1 hheaders
      rcases of_bind_eq_error h with hobserve | ⟨v, _, hlater⟩
      · exact observe_eq_error hfirst hobserve
      · exact ih hrest hlater

end Walk

/-- Every stream that is refused is refused as broken. No other sort of fault comes out of the
survey, although its readings could answer any. -/
theorem Survey.ofBytes_eq_error {stream : Bytes} {fault : Fault}
    (h : Survey.ofBytes stream = .error fault) : ∃ cause, fault = .structural cause := by
  have hheaders : ∀ e ∈ (Entry.cut 0 stream).1, headerBytes ≤ e.size :=
    fun _ => Entry.header_le_size
  have hbroken {broken : Fault} : (Entry.cut 0 stream).2 = some broken →
      ∃ cause, broken = .structural cause := Entry.cut_eq_error
  unfold ofBytes at h
  -- the walk comes first, and then the stream that breaks off
  generalize Entry.cut 0 stream = records at h hheaders hbroken
  obtain ⟨entries, broken⟩ := records
  rcases of_bind_eq_error h with hwalk | ⟨_, _, hend⟩
  · exact Walk.foldlM_observe_eq_error hheaders hwalk
  · cases broken with
    | some broken =>
        obtain rfl : broken = fault := Except.error.inj hend
        exact hbroken rfl
    | none => cases hend

end Metafile.Record
