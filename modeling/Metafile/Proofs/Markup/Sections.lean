import Mathlib.Data.List.Infix
import Metafile.Proofs.Markup.Scan

/-!
# `Metafile.Proofs.Markup.Sections`: the sections that hold a text

A text is written as sections, and only a terminator ends a section. `contents` are the contents
of the sections: a terminator of the text stands on the border between two of them, with its
brackets at the end of the one and its last character at the beginning of the other. So one after
the other they are the text (`flatten_contents`), and none of them ends its section early
(`endsLate_contents`), however the brackets of the text run into each other.
-/

set_option autoImplicit false

namespace Metafile.Text.Cdata

/-- The sections with the given contents. -/
def sections (contents : List (List Char)) : List Char :=
  contents.flatMap fun content => opening ++ content ++ closing

/-- A section ends where its content does: in the content and the closing there is no terminator
but the last. -/
def EndsLate (content : List Char) : Prop := ¬closing <:+: content ++ [']', ']']

/-- Whether a section ends late is found by a search for the terminator. -/
instance (content : List Char) : Decidable (EndsLate content) :=
  inferInstanceAs (Decidable (¬_))

/-- The contents of the sections that hold a text. -/
def contents : List Char → List (List Char)
  | ']' :: ']' :: '>' :: rest => [']', ']'] :: (contents rest).modifyHead ('>' :: ·)
  | c :: rest => (contents rest).modifyHead (c :: ·)
  | [] => [[]]

/-- The end of a section, character by character. -/
theorem closing_eq : closing = [']', ']', '>'] := by decide

/-- There is a first section. -/
theorem exists_contents (cs : List Char) : ∃ first rest, contents cs = first :: rest := by
  fun_induction contents cs with
  | case1 rest _ => exact ⟨_, _, rfl⟩
  | case2 c rest _ ih =>
      obtain ⟨first, others, hrest⟩ := ih
      exact ⟨c :: first, others, by rw [hrest, List.modifyHead_cons]⟩
  | case3 => exact ⟨[], [], rfl⟩

/-- One after the other, the contents are the text. -/
theorem flatten_contents (cs : List Char) : (contents cs).flatten = cs := by
  have hfirst (c : Char) (rest : List Char) :
      ((contents rest).modifyHead (c :: ·)).flatten = c :: (contents rest).flatten := by
    obtain ⟨first, others, hrest⟩ := exists_contents rest
    rw [hrest]
    rfl
  fun_induction contents cs with
  | case1 rest ih =>
      rw [List.flatten_cons, hfirst, ih]
      rfl
  | case2 c rest _ ih => rw [hfirst, ih]
  | case3 => rfl

/-- Written as they are, the text and its terminators are the sections. -/
theorem split_eq_sections (cs : List Char) :
    opening ++ split cs ++ closing = sections (contents cs) := by
  -- the opening in front makes the induction fail, so it is left out of it
  suffices hsplit : ∀ first rest, contents cs = first :: rest →
      split cs ++ closing = first ++ closing ++ sections rest by
    obtain ⟨first, rest, hcontents⟩ := exists_contents cs
    rw [List.append_assoc, hsplit first rest hcontents, hcontents, ← List.append_assoc,
      ← List.append_assoc]
    rfl
  fun_induction split cs with
  | case1 rest ih =>
      intro first others hcontents
      obtain ⟨next, more, hrest⟩ := exists_contents rest
      rw [contents, hrest] at hcontents
      obtain ⟨rfl, rfl⟩ := List.cons.inj hcontents
      rw [List.append_assoc, ih next more hrest]
      rfl
  | case2 c rest hother ih =>
      intro first others hcontents
      obtain ⟨next, more, hrest⟩ := exists_contents rest
      rw [contents, hrest] at hcontents
      · obtain ⟨rfl, rfl⟩ := List.cons.inj hcontents
        rw [List.cons_append, ih next more hrest]
        rfl
      · exact hother
  | case3 =>
      intro first others hcontents
      obtain ⟨rfl, rfl⟩ := List.cons.inj hcontents
      rfl

/-- The first content is the beginning of the text. -/
theorem prefix_of_contents {cs first : List Char} {rest : List (List Char)}
    (h : contents cs = first :: rest) : first <+: cs := by
  rw [← flatten_contents cs, h]
  exact List.prefix_append first rest.flatten

/-- A character before a content ends the section only if it begins a terminator. -/
theorem EndsLate.cons {c : Char} {content : List Char} (h : EndsLate content)
    (hterminator : c = ']' → ¬[']', '>'] <+: content) : EndsLate (c :: content) := by
  intro hinfix
  rcases List.infix_cons_iff.1 hinfix with hprefix | hlater
  · rw [closing_eq, List.cons_prefix_cons] at hprefix
    obtain ⟨rfl, hprefix⟩ := hprefix
    -- the brackets behind the content do not go on with the last character of a terminator
    match content with
    | [] => exact absurd hprefix (by decide)
    | [d] => simp at hprefix
    | d :: f :: rest =>
        obtain ⟨hd, hlast⟩ := List.cons_prefix_cons.1 hprefix
        obtain ⟨hf, _⟩ := List.cons_prefix_cons.1 hlast
        exact hterminator rfl ⟨rest, by rw [hd, hf]; rfl⟩
  · exact h hlater

/-- No content ends its section early. -/
theorem endsLate_contents (cs : List Char) : ∀ content ∈ contents cs, EndsLate content := by
  fun_induction contents cs with
  | case1 rest ih =>
      obtain ⟨first, others, hrest⟩ := exists_contents rest
      rw [hrest, List.forall_mem_cons] at ih
      rw [hrest, List.modifyHead_cons, List.forall_mem_cons, List.forall_mem_cons]
      exact ⟨by decide, ih.1.cons fun h => absurd h (by decide), ih.2⟩
  | case2 c rest hother ih =>
      obtain ⟨first, others, hrest⟩ := exists_contents rest
      rw [hrest, List.forall_mem_cons] at ih
      rw [hrest, List.modifyHead_cons, List.forall_mem_cons]
      refine ⟨ih.1.cons ?_, ih.2⟩
      rintro rfl hprefix
      -- the first content is the beginning of the text, which would be a terminator
      obtain ⟨after, rfl⟩ := hprefix.trans (prefix_of_contents hrest)
      exact hother after rfl rfl
  | case3 => exact List.forall_mem_singleton.2 (by decide)

end Metafile.Text.Cdata
