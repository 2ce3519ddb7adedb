import KiroCrew.Lib.Bytes

/-!
# Base64 for URLs

The alphabet with `-` and `_`, without padding, as signed tokens carry it: `urlDecode` fills the
padding up and reads what `urlEncode` wrote (`urlDecode_urlEncode`), and no text of it holds a full
stop.
-/

namespace Base64

def toUrl (c : Nat) : Nat := if c = 43 then 45 else if c = 47 then 95 else c

def ofUrl (c : Nat) : Nat := if c = 45 then 43 else if c = 95 then 47 else c

/-- `s.rstrip("=")` -/
def rstripPad (s : Str) : Str := (s.reverse.dropWhile (· = 61)).reverse

/-- `base64.urlsafe_b64encode(value).rstrip(b"=")` -/
def urlEncode (bs : List Nat) : Str := rstripPad ((encode bs).map toUrl)

/-- `base64.b64decode(value + "=" * (-len(value) % 4), altchars=b"-_", validate=True)` -/
def urlDecode (s : Str) : Option (List Nat) :=
  decode ((s ++ List.replicate ((4 - s.length % 4) % 4) 61).map ofUrl)

theorem mem_encode {bs : List Nat} (h : ∀ b ∈ bs, b < 256) {c : Nat} (hc : c ∈ encode bs) : c = 61 ∨
    ∃ d < 64, c = char d := by
  induction bs using encode.induct with
  | case1 => cases hc
  | case2 a =>
    have ha : a < 256 := h a (by simp)
    simp only [encode, List.mem_cons, List.not_mem_nil, or_false] at hc
    rcases hc with rfl | rfl | rfl | rfl
    · exact .inr ⟨_, by omega, rfl⟩
    · exact .inr ⟨_, by omega, rfl⟩
    · exact .inl rfl
    · exact .inl rfl
  | case3 a b =>
    have ha : a < 256 := h a (by simp)
    have hb : b < 256 := h b (by simp)
    simp only [encode, List.mem_cons, List.not_mem_nil, or_false] at hc
    rcases hc with rfl | rfl | rfl | rfl
    · exact .inr ⟨_, by omega, rfl⟩
    · exact .inr ⟨_, by omega, rfl⟩
    · exact .inr ⟨_, by omega, rfl⟩
    · exact .inl rfl
  | case4 a b d rest ih =>
    have ha : a < 256 := h a (by simp)
    have hb : b < 256 := h b (by simp)
    have hd : d < 256 := h d (by simp)
    simp only [encode, List.mem_cons] at hc
    rcases hc with rfl | rfl | rfl | rfl | hc
    · exact .inr ⟨_, by omega, rfl⟩
    · exact .inr ⟨_, by omega, rfl⟩
    · exact .inr ⟨_, by omega, rfl⟩
    · exact .inr ⟨_, by omega, rfl⟩
    · exact ih (fun x hx => h x (by simp [hx])) hc

theorem toUrl_char : ∀ d < 64, ofUrl (toUrl (char d)) = char d ∧ toUrl (char d) ≠ 61 ∧
    toUrl (char d) ≠ 46 ∧ toUrl (char d) < 128 := by
  decide

theorem rstripPad_append {s : Str} (h : ∀ c ∈ s, c ≠ 61) (p : Nat) :
    rstripPad (s ++ List.replicate p 61) = s := by
  have hpad : ∀ c ∈ List.replicate p 61, decide (c = 61) = true := by
    intro c hc
    rw [List.eq_of_mem_replicate hc]
    rfl
  have hstop : s.reverse.dropWhile (· = 61) = s.reverse := by
    cases hs : s.reverse with
    | nil => rfl
    | cons c t =>
      have hc : c ≠ 61 := h c (List.mem_reverse.1 (hs ▸ List.mem_cons_self))
      rw [List.dropWhile_cons_of_neg (by simpa using hc)]
  rw [rstripPad, List.reverse_append, List.reverse_replicate, List.dropWhile_append_of_pos hpad,
    hstop, List.reverse_reverse]

/-- The encoding is the groups with the other alphabet, and the padding that is left out is what
decoding fills up. -/
theorem urlEncode_eq {bs : List Nat} (h : ∀ b ∈ bs, b < 256) :
    ∃ s p, encode bs = s ++ List.replicate p 61 ∧ (∀ c ∈ s, ∃ d < 64, c = char d) ∧
    urlEncode bs = s.map toUrl ∧
      (4 - (urlEncode bs).length % 4) % 4 = p := by
  obtain ⟨s, p, hs, hp, hpad, -⟩ := encode_eq bs h
  have hchars : ∀ c ∈ s, ∃ d < 64, c = char d := by
    intro c hc
    rcases mem_encode h (hs ▸ List.mem_append_left _ hc) with rfl | hd
    · exact absurd rfl (hpad 61 hc)
    · exact hd
  have hne : ∀ c ∈ s.map toUrl, c ≠ 61 := by
    intro c hc
    obtain ⟨x, hx, rfl⟩ := List.mem_map.1 hc
    obtain ⟨d, hd, rfl⟩ := hchars x hx
    exact (toUrl_char d hd).2.1
  have hurl : urlEncode bs = s.map toUrl := by
    rw [urlEncode, hs, List.map_append, List.map_replicate]
    exact rstripPad_append hne p
  refine ⟨s, p, hs, hchars, hurl, ?_⟩
  have hlength := length_encode bs
  rw [hs, List.length_append, List.length_replicate] at hlength
  rw [hurl, List.length_map]
  omega

theorem urlDecode_urlEncode {bs : List Nat} (h : ∀ b ∈ bs, b < 256) : urlDecode (urlEncode bs) =
    some bs := by
  obtain ⟨s, p, hs, hchars, hurl, hfill⟩ := urlEncode_eq h
  have hback : (s.map toUrl).map ofUrl = s := by
    rw [List.map_map]
    refine (List.map_congr_left fun c hc => ?_).trans (List.map_id _)
    obtain ⟨d, hd, rfl⟩ := hchars c hc
    exact (toUrl_char d hd).1
  rw [urlDecode, hfill, hurl, List.map_append, hback, List.map_replicate]
  show decode (s ++ List.replicate p 61) = _
  rw [← hs, decode_encode h]

theorem mem_urlEncode {bs : List Nat} (h : ∀ b ∈ bs, b < 256) {c : Nat} (hc : c ∈ urlEncode bs) :
    c ≠ 46 ∧ c < 128 := by
  obtain ⟨s, p, -, hchars, hurl, -⟩ := urlEncode_eq h
  rw [hurl] at hc
  obtain ⟨x, hx, rfl⟩ := List.mem_map.1 hc
  obtain ⟨d, hd, rfl⟩ := hchars x hx
  exact (toUrl_char d hd).2.2

end Base64
