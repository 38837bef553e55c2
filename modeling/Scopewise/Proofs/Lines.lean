import Scopewise.Proofs.Alphabet
import Scopewise.Proofs.Pointing
import Scopewise.Proofs.Token.Joined

namespace Scopewise

namespace Source

/-- A text is one line, or a line and the text behind its line feed. -/
theorem cut (source : String) :
    '\n' ∉ source.toList ∨
      ∃ first rest : String, source = first ++ "\n" ++ rest ∧ '\n' ∉ first.toList := by
  by_cases h : '\n' ∈ source.toList
  · obtain ⟨first, rest, hsource, hfirst⟩ := List.eq_append_cons_of_mem h
    refine .inr ⟨String.ofList first, String.ofList rest, ?_, by rwa [String.toList_ofList]⟩
    apply String.toList_inj.1
    simp [hsource]
  · exact .inl h

variable {first rest : String} {text line : List Char} {n : Nat}

theorem toList_joined (first rest : String) :
    (first ++ "\n" ++ rest).toList = first.toList ++ '\n' :: rest.toList := by
  simp

theorem count_joined (hfirst : '\n' ∉ first.toList) :
    (first ++ "\n" ++ rest).toList.count '\n' = rest.toList.count '\n' + 1 := by
  rw [toList_joined, List.count_append, List.count_eq_zero.2 hfirst, List.count_cons_self,
    Nat.zero_add]

private theorem all_ne (h : '\n' ∉ text) : ∀ c ∈ text, decide (c ≠ '\n') = true := by
  intro c hc
  exact decide_eq_true fun heq => h (heq ▸ hc)

theorem lineAfter?_zero_of_not_mem (h : '\n' ∉ text) : lineAfter? 0 text = some text := by
  rw [lineAfter?, List.takeWhile_eq_self_iff.2 (all_ne h)]

theorem lineAfter?_succ_of_not_mem (h : '\n' ∉ text) : lineAfter? (n + 1) text = none := by
  rw [lineAfter?, List.dropWhile_eq_nil_iff.2 (all_ne h)]

theorem lineAfter?_zero_joined (hfirst : '\n' ∉ first.toList) :
    lineAfter? 0 (first ++ "\n" ++ rest).toList = some first.toList := by
  rw [toList_joined, lineAfter?, List.takeWhile_append_of_pos (all_ne hfirst),
    List.takeWhile_cons_of_neg (by simp), List.append_nil]

theorem lineAfter?_succ_joined (hfirst : '\n' ∉ first.toList) :
    lineAfter? (n + 1) (first ++ "\n" ++ rest).toList = lineAfter? n rest.toList := by
  rw [toList_joined, lineAfter?, List.dropWhile_append_of_pos (all_ne hfirst),
    List.dropWhile_cons_of_neg (by simp)]

/-- A line has its line feeds before it. -/
theorem le_count_of_lineAfter? {source : String}
    (h : lineAfter? n source.toList = some line) : n ≤ source.toList.count '\n' := by
  induction n generalizing source with
  | zero => exact Nat.zero_le _
  | succ n ih =>
    obtain hsource | ⟨first, rest, rfl, hfirst⟩ := cut source
    · rw [lineAfter?_succ_of_not_mem hsource] at h
      cases h
    · rw [lineAfter?_succ_joined hfirst] at h
      rw [count_joined hfirst]
      exact Nat.succ_le_succ (ih h)

theorem not_mem_of_lineAfter? {source : String} (h : lineAfter? n source.toList = some line) :
    '\n' ∉ line := by
  induction n generalizing source with
  | zero =>
    obtain rfl := Option.some.inj h
    intro hmem
    exact absurd (List.mem_takeWhile_imp hmem) (by simp)
  | succ n ih =>
    obtain hsource | ⟨first, rest, rfl, hfirst⟩ := cut source
    · rw [lineAfter?_succ_of_not_mem hsource] at h
      cases h
    · rw [lineAfter?_succ_joined hfirst] at h
      exact ih h

theorem line?_eq_some_iff {source text : String} {number : UInt32} :
    line? source number = some text ↔
      ∃ n line, number.toNat = 1 + n ∧ lineAfter? n source.toList = some line ∧
        String.ofList line = text := by
  unfold line?
  by_cases hzero : number = 0
  · rw [if_pos hzero, hzero]
    constructor
    · intro h
      cases h
    · rintro ⟨n, line, hnumber, -, -⟩
      change 0 = 1 + n at hnumber
      omega
  · have hpos : number.toNat ≠ 0 := fun h => hzero (UInt32.toNat_inj.1 h)
    rw [if_neg hzero, Option.map_eq_some_iff]
    constructor
    · rintro ⟨line, hline, htext⟩
      exact ⟨number.toNat - 1, line, by omega, hline, htext⟩
    · rintro ⟨n, line, hnumber, hline, htext⟩
      rw [hnumber, Nat.add_sub_cancel_left]
      exact ⟨line, hline, htext⟩

theorem exists_line?_iff (source : String) (number : UInt32) :
    (∃ text, line? source number = some text) ↔
      1 ≤ number.toNat ∧ number.toNat ≤ 1 + source.toList.count '\n' := by
  constructor
  · rintro ⟨text, h⟩
    obtain ⟨n, line, hnumber, hline, -⟩ := line?_eq_some_iff.1 h
    have hle := le_count_of_lineAfter? hline
    omega
  · rintro ⟨hpos, hle⟩
    have hle' : number.toNat - 1 ≤ source.toList.count '\n' := by omega
    obtain ⟨line, hline⟩ := exists_lineAfter? hle'
    exact ⟨String.ofList line, line?_eq_some_iff.2 ⟨_, line, by omega, hline, rfl⟩⟩

end Source

namespace Token

/-- The token in another line. -/
def inLine (line : UInt32) (t : Token) : Token :=
  { t with position := { t.position with line } }

variable {source file : String} {tokens : List Token} {n : Nat}

theorem line_bounds (h : tokenize source (some file) = .ok tokens)
    (hsource : source.toList.count '\n' < UInt32.size - 1) :
    ∀ t ∈ tokens, 1 ≤ t.line.toNat ∧ t.line.toNat ≤ 1 + source.toList.count '\n' := by
  intro t ht
  obtain ⟨before, after, hsplit⟩ := List.append_of_mem ht
  have hcount := (tokenize_eq_ok h).count_newline
  rw [hsplit, newlines_append, List.count_nil] at hcount
  have hle : newlines before ≤ source.toList.count '\n' := by omega
  have hline : t.line = (1 + newlines before).toUInt32 :=
    congrArg Position.line ((tokenize_eq_ok_iff.1 h).2.2 before t after hsplit)
  rw [hline, toNat_line hle hsource]
  omega

/-- The tokens of a single line. -/
theorem position_of_not_mem (h : tokenize source (some file) = .ok tokens)
    (hsource : '\n' ∉ source.toList) :
    ∀ t ∈ tokens, t.kind ≠ .newline ∧ t.position = ⟨1, file⟩ := by
  intro t ht
  have hcount := (tokenize_eq_ok h).count_newline
  rw [List.count_eq_zero.2 hsource, List.count_nil, Nat.add_zero] at hcount
  have hkind : ∀ u ∈ tokens, u.kind ≠ .newline := by
    simpa [newlines, List.countP_eq_zero] using hcount.symm
  obtain ⟨before, after, hsplit⟩ := List.append_of_mem ht
  have hbefore : newlines before = 0 := by
    rw [hsplit, newlines_append] at hcount
    omega
  refine ⟨hkind t ht, ?_⟩
  rw [(tokenize_eq_ok_iff.1 h).2.2 before t after hsplit, hbefore]
  rfl

/-- The tokens are cut where the text is. -/
theorem tokenize_cut {first rest : String} (hfirst : '\n' ∉ first.toList)
    (h : tokenize (first ++ "\n" ++ rest) (some file) = .ok tokens) :
    ∃ ts us, tokenize first (some file) = .ok ts ∧ tokenize rest (some file) = .ok us ∧
      tokens = ts ++ ⟨.newline, "\n", 1, file⟩ :: us.map (down 1) := by
  have hallowed := (exists_tokenize_eq_ok_iff _ _).1 ⟨tokens, h⟩
  rw [Source.toList_joined, List.forall_mem_append, List.forall_mem_cons] at hallowed
  obtain ⟨ts, hts⟩ := (exists_tokenize_eq_ok_iff first (some file)).2 hallowed.1
  obtain ⟨us, hus⟩ := (exists_tokenize_eq_ok_iff rest (some file)).2 hallowed.2.2
  have hnewlines : newlines ts = 0 := by
    have hcount := (tokenize_eq_ok hts).count_newline
    rw [List.count_eq_zero.2 hfirst] at hcount
    omega
  have hjoined := tokenize_joined hts hus
  rw [hnewlines] at hjoined
  exact ⟨ts, us, hts, hus, Except.ok.inj (h.symm.trans hjoined)⟩

theorem line_down_one (t : Token) : (down 1 t).line = t.line + 1 :=
  rfl

theorem inLine_one (t : Token) (h : t.position = ⟨1, file⟩) : inLine 1 t = t := by
  rw [inLine, h, ← h]

theorem down_one_inLine (n : Nat) (t : Token) :
    down 1 (inLine (1 + n).toUInt32 t) = inLine (1 + (n + 1)).toUInt32 t :=
  congrArg (inLine · t) (UInt32.ofNat_add (1 + n) 1).symm

theorem filter_map_down_one (line : UInt32) (tokens : List Token) :
    (tokens.map (down 1)).filter (·.line = line + 1) =
      (tokens.filter (·.line = line)).map (down 1) := by
  rw [List.filter_map]
  refine congrArg (List.map (down 1)) (List.filter_congr fun t _ => ?_)
  simp [line_down_one]

theorem filter_line_zero (h : tokenize source (some file) = .ok tokens)
    (hsource : source.toList.count '\n' < UInt32.size - 1) : tokens.filter (·.line = 0) = [] := by
  rw [List.filter_eq_nil_iff]
  intro t ht hzero
  have hpos := (line_bounds h hsource t ht).1
  rw [of_decide_eq_true hzero] at hpos
  exact absurd hpos (by decide)

section

variable {ts : List Token} (hts : ∀ t ∈ ts, t.kind ≠ .newline ∧ t.position = ⟨1, file⟩)

include hts

theorem filter_first : ts.filter (·.line = 1) = ts.map (inLine 1) := by
  have hmap : ts.map (inLine 1) = ts := by
    calc
      ts.map (inLine 1) = ts.map id := List.map_congr_left fun t ht => inLine_one t (hts t ht).2
      _ = ts := List.map_id ts
  rw [hmap, List.filter_eq_self]
  intro t ht
  rw [Token.line, (hts t ht).2]
  rfl

theorem filter_other {line : UInt32} (hline : line ≠ 1) : ts.filter (·.line = line) = [] := by
  rw [List.filter_eq_nil_iff]
  intro t ht heq
  rw [Token.line, (hts t ht).2] at heq
  exact hline (of_decide_eq_true heq).symm

/-- Behind the cut no token is in the first line. -/
theorem filter_cut_one {us : List Token} (hus : us.filter (·.line = 0) = []) :
    (ts ++ ⟨.newline, "\n", 1, file⟩ :: us.map (down 1)).filter (·.line = 1) =
      ts.map (inLine 1) ++ [⟨.newline, "\n", 1, file⟩] := by
  have hrest : (us.map (down 1)).filter (·.line = 1) = [] := by
    have hdown := filter_map_down_one 0 us
    rw [hus] at hdown
    exact hdown
  rw [List.filter_append, filter_first hts, List.filter_cons_of_pos (by rfl), hrest]

/-- The tokens in a further line are all behind the cut. -/
theorem filter_cut_succ {line : UInt32} (hline : line ≠ 0) (us : List Token) :
    (ts ++ ⟨.newline, "\n", 1, file⟩ :: us.map (down 1)).filter (·.line = line + 1) =
      (us.filter (·.line = line)).map (down 1) := by
  have hne : line + 1 ≠ 1 := by simpa using hline
  rw [List.filter_append, filter_other hts hne,
    List.filter_cons_of_neg (by simpa [Token.line] using hne.symm), List.nil_append,
    filter_map_down_one]

end

/-- The tokens in a line, in order: those of the line alone, and the line feed if one ends it. -/
theorem filter_line {text : List Char} (h : tokenize source (some file) = .ok tokens)
    (hsource : source.toList.count '\n' < UInt32.size - 1)
    (hline : Source.lineAfter? n source.toList = some text) :
    ∃ ts, tokenize (String.ofList text) (some file) = .ok ts ∧
      tokens.filter (·.line = (1 + n).toUInt32) =
        ts.map (inLine (1 + n).toUInt32) ++
          if n < source.toList.count '\n' then [⟨.newline, "\n", (1 + n).toUInt32, file⟩]
          else [] := by
  have hle := Source.le_count_of_lineAfter? hline
  -- the text loses its first line with each step, so every line sought is the first in the end
  induction n generalizing source tokens with
  | zero =>
    change ∃ ts : List Token, _ ∧ tokens.filter (·.line = 1) = ts.map (inLine 1) ++
      if 0 < source.toList.count '\n' then [⟨.newline, "\n", 1, file⟩] else []
    obtain hsingle | ⟨first, rest, rfl, hfirst⟩ := Source.cut source
    · rw [Source.lineAfter?_zero_of_not_mem hsingle] at hline
      obtain rfl := Option.some.inj hline
      refine ⟨tokens, by rwa [String.ofList_toList], ?_⟩
      rw [filter_first (position_of_not_mem h hsingle), List.count_eq_zero.2 hsingle,
        if_neg (Nat.lt_irrefl 0), List.append_nil]
    · obtain ⟨ts, us, hts, hus, rfl⟩ := tokenize_cut hfirst h
      rw [Source.lineAfter?_zero_joined hfirst] at hline
      obtain rfl := Option.some.inj hline
      rw [Source.count_joined hfirst] at hsource ⊢
      refine ⟨ts, by rwa [String.ofList_toList], ?_⟩
      rw [filter_cut_one (position_of_not_mem hts hfirst) (filter_line_zero hus (by omega)),
        if_pos (Nat.succ_pos _)]
  | succ n ih =>
    obtain hsingle | ⟨first, rest, rfl, hfirst⟩ := Source.cut source
    · rw [Source.lineAfter?_succ_of_not_mem hsingle] at hline
      cases hline
    · obtain ⟨ts, us, hts, hus, rfl⟩ := tokenize_cut hfirst h
      rw [Source.lineAfter?_succ_joined hfirst] at hline
      rw [Source.count_joined hfirst] at hle hsource ⊢
      obtain ⟨vs, hvs, hfilter⟩ := ih hus (by omega) hline (by omega)
      -- the lines are few enough for their numbers not to come round to zero
      have hne : (1 + n).toUInt32 ≠ 0 := by
        intro heq
        have htoNat := toNat_line (Nat.le_of_succ_le_succ hle) (by omega)
        rw [heq] at htoNat
        change 0 = 1 + n at htoNat
        omega
      have hnext : (1 + (n + 1)).toUInt32 = (1 + n).toUInt32 + 1 := UInt32.ofNat_add (1 + n) 1
      refine ⟨vs, hvs, ?_⟩
      rw [hnext, filter_cut_succ (position_of_not_mem hts hfirst) hne, hfilter, List.map_append,
        List.map_map, ← hnext]
      simp only [Nat.add_lt_add_iff_right]
      congr 1
      · exact List.map_congr_left fun t _ => down_one_inLine n t
      · split
        · rw [List.map_singleton, hnext]
          rfl
        · rfl

/-- The tokens in a line that is there. -/
theorem exists_filter_line {text : String} {line : UInt32}
    (h : tokenize source (some file) = .ok tokens)
    (hsource : source.toList.count '\n' < UInt32.size - 1)
    (hline : Source.line? source line = some text) :
    ∃ ts, tokenize text (some file) = .ok ts ∧
      (∀ t ∈ ts, t.kind ≠ .newline ∧ t.position = ⟨1, file⟩) ∧
      tokens.filter (·.line = line) = ts.map (inLine line) ++
        if line.toNat ≤ source.toList.count '\n' then [⟨.newline, "\n", line, file⟩] else [] := by
  obtain ⟨n, chars, hn, hchars, rfl⟩ := Source.line?_eq_some_iff.1 hline
  obtain ⟨ts, hts, hfilter⟩ := filter_line h hsource hchars
  have hsingle : '\n' ∉ (String.ofList chars).toList := by
    rw [String.toList_ofList]
    exact Source.not_mem_of_lineAfter? hchars
  have hnumber : (1 + n).toUInt32 = line := by
    rw [← hn]
    exact UInt32.ofNat_toNat
  have hlast : line.toNat ≤ source.toList.count '\n' ↔ n < source.toList.count '\n' := by omega
  rw [hnumber] at hfilter
  simp only [hlast]
  exact ⟨ts, hts, position_of_not_mem hts hsingle, hfilter⟩

/-- Scanning is local to the lines of a text: the tokens that say they are in a line, the line feeds
apart, are those of the line alone. Every line but the last has one line feed. -/
theorem tokenize_line (source : String) (file? : Option String) (tokens : List Token)
    (hsource : source.toList.count '\n' < UInt32.size - 1)
    (h : tokenize source file? = .ok tokens) (line : UInt32) :
    ((∃ text, Source.line? source line = some text) ↔
      1 ≤ line.toNat ∧ line.toNat ≤ 1 + source.toList.count '\n') ∧
    (∀ text, Source.line? source line = some text →
      ∃ ts, tokenize text file? = .ok ts ∧ (∀ t ∈ ts, t.line = 1) ∧
        ts.map (inLine line) = tokens.filter fun t => t.kind ≠ .newline ∧ t.line = line) ∧
    tokens.countP (fun t => t.kind = .newline ∧ t.line = line) =
      if 1 ≤ line.toNat ∧ line.toNat ≤ source.toList.count '\n' then 1 else 0 := by
  change tokenize source (some (file?.getD shellLabel)) = .ok tokens at h
  have hlines := Source.exists_line?_iff source line
  refine ⟨hlines, fun text htext => ?_, ?_⟩
  · obtain ⟨ts, hts, hsingle, hfilter⟩ := exists_filter_line h hsource htext
    refine ⟨ts, hts, fun t ht => by rw [Token.line, (hsingle t ht).2], ?_⟩
    have hkept : (ts.map (inLine line)).filter (·.kind ≠ .newline) = ts.map (inLine line) := by
      rw [List.filter_eq_self, List.forall_mem_map]
      intro t ht
      exact decide_eq_true (hsingle t ht).1
    simp only [Bool.decide_and]
    rw [← List.filter_filter, hfilter, List.filter_append, hkept]
    split
    · exact (List.append_nil _).symm
    · exact (List.append_nil _).symm
  · simp only [Bool.decide_and]
    by_cases hline : 1 ≤ line.toNat ∧ line.toNat ≤ 1 + source.toList.count '\n'
    · obtain ⟨text, htext⟩ := hlines.2 hline
      obtain ⟨ts, -, hsingle, hfilter⟩ := exists_filter_line h hsource htext
      have hnone : (ts.map (inLine line)).countP (·.kind = .newline) = 0 := by
        rw [List.countP_eq_zero, List.forall_mem_map]
        intro t ht hkind
        exact (hsingle t ht).1 (of_decide_eq_true hkind)
      rw [← List.countP_filter, hfilter, List.countP_append, hnone]
      simp only [hline.1, true_and]
      split
      · rfl
      · rfl
    · rw [if_neg (by omega), List.countP_eq_zero]
      intro t ht hboth
      have hbounds := line_bounds h hsource t ht
      have heq : t.line = line := by simpa using (Bool.and_eq_true_iff.1 hboth).2
      rw [heq] at hbounds
      exact hline hbounds

/-- The first line is empty, and so is the last, which is behind the last line feed. -/
theorem tokenize_line_second :
    tokenize "\nx 12\n" none =
        .ok [⟨.newline, "\n", 1, "shell"⟩, ⟨.identifier, "x", 2, "shell"⟩,
          ⟨.integer, "12", 2, "shell"⟩, ⟨.newline, "\n", 2, "shell"⟩] ∧
      ∃ ts, tokenize "x 12" none = .ok ts ∧ ts.map (inLine 2) =
        [⟨.identifier, "x", 2, "shell"⟩, ⟨.integer, "12", 2, "shell"⟩] := by
  refine ⟨rfl, ?_⟩
  obtain ⟨ts, hts, -, hmap⟩ :=
    (tokenize_line "\nx 12\n" none _ (by decide) rfl 2).2.1 "x 12" (by decide)
  exact ⟨ts, hts, hmap⟩

end Token

end Scopewise
