import PrettyPayload.Proofs.Html.Nested

/-!
# Written trees are read again

On a steady page, trees that nest in the open elements are planted below the innermost of them when
what is written of them is read, and the page is steady again. This is said of any text behind them,
so that it goes through the trees by their own recursion.
-/

namespace PrettyPayload

namespace Html

open Markup PrettyPayload.Tree

variable {page page' : Page} {root : Nat} {opened : List Opened} {o : Opened} {tag : Tag}
  {content content' : Content} {t rest : Text} {f : Forest}

/-! ## Rounds of reading -/

def Content.IsData (content : Content) : Prop := content = .data ∨ content = .afterScript

theorem lex_of_isData (hcontent : content.IsData) (hmark : t.head? ≠ some '\uFEFF')
    (rules : ContentRules) : lex content rules t = lexData rules t := by
  rcases hcontent with rfl | rfl
  · rfl
  · rw [lex]
    cases t with
    | nil => rfl
    | cons c t =>
      rw [withoutMark.eq_2]
      rintro u hu
      exact hmark (congrArg some (List.cons.inj hu).1)

theorem readAll_of_lex (tokens : List Token) (hne : t ≠ [])
    (hlex : lex content page.contentRules t = (tokens, rest))
    (htake : takeAll tokens page = (content', page')) (hlength : rest.length < t.length) :
    readAll content t page = readAll content' rest page' := by
  rw [readAll, if_neg hne, hlex]
  simp only [htake]
  exact dif_pos hlength

structure Read (content : Content) (t rest : Text) (page page' : Page) (root : Nat)
    (opened : List Opened) (f : Forest) : Prop where
  /-- The rest is read from there on. -/
  readAll_eq : ∃ content', content'.IsData ∧ readAll content t page = readAll content' rest page'
  reached : Reached page page' root opened f

theorem not_mem_of_admits_form {path : List String} (h : admits path "form" = true) :
    "form" ∉ path := by
  have hrole : roleOf? "form" = some .form := by decide
  rw [admits, hrole] at h
  simpa using (Bool.and_eq_true_iff.1 h).2

/-- Written characters are never a byte order mark where none is in the text. -/
theorem escapeText_eq_cons {s : Text} (hne : s ≠ []) (hs : IsSafeText s) :
    ∃ c u, escapeText .html s = c :: u ∧ c ≠ '\uFEFF' := by
  have hmark : '\uFEFF' ∉ escapeText .html s := by
    intro hmem
    rcases mem_of_mem_flatMap writes_escapeTextChar hmem with ⟨entry, hentry, hmem⟩ | ⟨hmem, -⟩
    · have hreferences : ∀ entry ∈ writtenReferences, '\uFEFF' ∉ entry.1 := by decide
      exact hreferences entry hentry hmem
    · exact hs.2 hmem
  cases hcons : escapeText .html s with
  | nil =>
    have hdecode := decode_escapeText hs.1.1
    rw [hcons, decode] at hdecode
    exact absurd hdecode.symm hne
  | cons c u => exact ⟨c, u, rfl, fun hc => hmark (hcons ▸ hc ▸ List.mem_cons_self)⟩

theorem isOfTable_of_isOfBody {mode : Mode} (h : mode.isOfBody = true) :
    mode.isOfTable = false := by
  cases mode with
  | inBody | inCaption | inCell => rfl
  | _ => cases h

namespace Steady

/-! ## Single tokens -/

theorem read_of_lexData {markup : Text} {token : Token} {opened' : List Opened}
    (hcontent : content.IsData) (hne : ∃ u, markup = '<' :: u)
    (hlex : lexData page.contentRules (markup ++ rest) = ([token], rest))
    (htake : Build.take token page = (.data, page'))
    (hreached : Reached page page' root opened' f) :
    Read content (markup ++ rest) rest page page' root opened' f := by
  obtain ⟨u, rfl⟩ := hne
  refine ⟨⟨.data, Or.inl rfl, readAll_of_lex [token] (List.cons_ne_nil _ _) ?_
    htake ?_⟩, hreached⟩
  · rw [lex_of_isData hcontent (by simp), hlex]
  · rw [List.length_append, List.length_cons]
    omega

theorem startTag_eq (e : Element) : ∃ u, startTag .html e false = '<' :: u := ⟨_, rfl⟩

theorem read_startTag (h : Steady page root opened) (hcontent : content.IsData)
    (hmode : (modeOf (pathOf opened)).isOfBody = true) {e : Element} (he : IsTag e)
    (hadmits : admits (pathOf opened) (tagOf e).name = true)
    (hvoid : roleOf? (tagOf e).name ≠ some .void) (rest : Text) :
    ∃ page', Read content (startTag .html e false ++ rest) rest page page' root
        (⟨page.forest.cells.size, tagOf e⟩ :: opened)
        (page.forest.grow (innermost root opened)
          (.element (htmlName (tagOf e).name) (tagOf e).attributes)) ∧
      page'.skipLineFeed = lineFeedTags.contains (tagOf e).name := by
  obtain ⟨page', htake, hreached, hskip⟩ := h.take_startTag hmode hadmits hvoid
  exact ⟨page', read_of_lexData hcontent (startTag_eq e) (lexData_startTag he rest) htake hreached,
    hskip⟩

theorem read_void (h : Steady page root opened) (hcontent : content.IsData)
    (hmode : (modeOf (pathOf opened)).isOfBody = true) {e : Element} (he : IsTag e)
    (hadmits : admits (pathOf opened) (tagOf e).name = true)
    (hvoid : roleOf? (tagOf e).name = some .void) (rest : Text) :
    ∃ page', Read content (startTag .html e false ++ rest) rest page page' root opened
        (page.forest.grow (innermost root opened)
          (.element (htmlName (tagOf e).name) (tagOf e).attributes)) ∧
      page'.skipLineFeed = false := by
  obtain ⟨page', htake, hreached, hskip⟩ := h.take_void hmode hadmits hvoid
  exact ⟨page', read_of_lexData hcontent (startTag_eq e) (lexData_startTag he rest) htake hreached,
    hskip⟩

theorem read_endTag {e : Element} {k : Nat} (h : Steady page root (⟨k, tagOf e⟩ :: opened))
    (hcontent : content.IsData) (hmode : (modeOf (pathOf opened)).isOfBody = true) (he : IsTag e)
    (hadmits : admits (pathOf opened) (tagOf e).name = true)
    (hvoid : roleOf? (tagOf e).name ≠ some .void)
    (hbased : page.isFragment = true ∨ opened ≠ []) (rest : Text) :
    ∃ page', Read content (endTag e ++ rest) rest page page' root opened page.forest ∧
      page'.skipLineFeed = false := by
  obtain ⟨r, hrole⟩ := exists_role_of_admits hadmits
  have hform : (tagOf e).name = "form" → formOf opened = none := by
    intro hname
    exact formOf_eq_none (not_mem_of_admits_form (hname ▸ hadmits))
  obtain ⟨page', htake, hreached, hskip⟩ := h.take_endTag (tagOf (bare e)) hmode hrole
    (fun heq => hvoid (heq ▸ hrole)) hbased hform rfl
  exact ⟨page', read_of_lexData hcontent ⟨_, rfl⟩ (lexData_endTag he rest) htake hreached, hskip⟩

theorem read_comment (h : Steady page root opened) (hcontent : content.IsData)
    (hmode : (modeOf (pathOf opened)).isOfBody = true) (ht : IsCommentText t) (rest : Text) :
    ∃ page', Read content (commentText t ++ rest) rest page page' root opened
        (page.forest.grow (innermost root opened) (.comment t)) ∧ page'.skipLineFeed = false := by
  obtain ⟨page', htake, hreached, hskip⟩ := h.take_comment hmode t
  exact ⟨page', read_of_lexData hcontent ⟨_, rfl⟩ (lexData_comment ht rest) htake hreached, hskip⟩

theorem read_text (h : Steady page root opened) (hcontent : content.IsData)
    (hmode : (modeOf (pathOf opened)).isOfBody = true) {s : Text} (hs : IsSafeText s) (hne : t ≠ [])
    (hdrop : (if page.skipLineFeed ∧ s.head? = some '\n' then s.drop 1 else s) = t)
    (hrest : EndsText rest) :
    ∃ page', Read content (escapeText .html s ++ rest) rest page page' root opened
        (page.forest.appendText (innermost root opened) t) ∧ page'.skipLineFeed = false := by
  obtain ⟨page', htake, hreached, hskip⟩ := h.take_chars hmode hne hdrop
  have hs' : s ≠ [] := by
    rintro rfl
    exact hne (by rw [← hdrop]; split <;> rfl)
  have hrules : page.contentRules = ⟨false, false⟩ := by
    rw [h.contentRules, isOfTable_of_isOfBody hmode]
  obtain ⟨c, u, hcons, hc⟩ := escapeText_eq_cons hs' hs
  refine ⟨page', ⟨⟨.data, Or.inl rfl, readAll_of_lex [.chars s] ?_ ?_ htake ?_⟩,
    hreached⟩, hskip⟩
  · rw [hcons]
    exact List.cons_ne_nil _ _
  · rw [lex_of_isData hcontent (by rw [hcons]; simpa using hc), hrules]
    exact lexData_escapeText hs' hs.1 hrest
  · rw [hcons, List.length_append, List.length_cons]
    omega

/-! ## Elements without markup -/

theorem lex_of_holdsRaw {e : Element} (he : IsTag e) {raw : Content}
    (hraw : rawContent? (tagOf e).name = some raw) {ts : List (Tree Markup.Node)}
    (hts : holdsRaw raw ts = true) (rules : ContentRules) (rest : Text) :
    lex raw rules (leadFeed e ts ++ writtenAll ts ++ (endTag e ++ rest)) =
      (charsToken (leadFeed e ts ++ textOf (ts.map value)) ++
        [.endTag (Tag.plain (tagOf e).name)], rest) := by
  have hname : IsTagName (tagOf e).name.toList = true := (toList_name e).symm ▸ he.name
  have hfeed := leadFeed_of_raw hraw ts
  rw [← List.append_assoc, endTag_eq_closing, ← toList_name e]
  rcases rawContent?_cases hraw with ⟨hscript, rfl⟩ | ⟨hmem, rfl⟩ | ⟨hmem, rfl⟩
  · rw [hfeed (hscript ▸ by decide), List.nil_append, List.nil_append, hscript]
    rcases holdsRaw_cases hts with rfl | ⟨t, -, -, ⟨⟨name, hcontent⟩, -⟩ |
      ⟨⟨name, hcontent, -⟩ | ⟨-, ht⟩, rfl⟩⟩
    · exact lex_script (t := []) (by decide) rules rest
    · cases hcontent
    · cases hcontent
    · have hlex := lex_script ht rules rest
      simpa [writtenAll, written, textOf, Markup.Node.text?, scriptEnd] using hlex
  · have hescape : leadFeed e ts ++ writtenAll ts =
        escapeText .html (leadFeed e ts ++ textOf (ts.map value)) ∧
          IsPlainText (leadFeed e ts ++ textOf (ts.map value)) := by
      have hfeed : leadFeed e ts = escapeText .html (leadFeed e ts) ∧
          IsPlainText (leadFeed e ts) := by
        rcases leadFeed_cases e ts with hfeed | hfeed <;> rw [hfeed] <;> decide
      have htext : writtenAll ts = escapeText .html (textOf (ts.map value)) ∧
          IsPlainText (textOf (ts.map value)) := by
        rcases holdsRaw_cases hts with rfl | ⟨t, -, ht, ⟨-, rfl⟩ |
          ⟨⟨name, hcontent, -⟩ | ⟨hcontent, -⟩, -⟩⟩
        · decide
        · simpa [writtenAll, written, textOf, Markup.Node.text?] using ht
        · cases hcontent
        · cases hcontent
      rw [escapeText_append, ← hfeed.1, ← htext.1]
      exact ⟨rfl, List.not_mem_append hfeed.2.1 htext.2.1, List.not_mem_append hfeed.2.2 htext.2.2⟩
    rw [hescape.1]
    exact lex_rcdata hname hescape.2 rules rest
  · rw [hfeed fun heq => absurd (heq ▸ hmem) (by decide), List.nil_append, List.nil_append]
    rcases holdsRaw_cases hts with rfl | ⟨t, -, -, ⟨⟨name, hcontent⟩, -⟩ |
      ⟨⟨name, hcontent, ht⟩ | ⟨hcontent, -⟩, rfl⟩⟩
    · have hnil : IsRawText (tagOf e).name.toList [] :=
        ⟨by decide, by simpa using untilEndTag_closing (tagOf e).name.toList []⟩
      exact lex_rawtext hname hnil rules rest
    · cases hcontent
    · obtain rfl := Content.rawtext.inj hcontent
      have hlex := lex_rawtext hname ht rules rest
      simpa [writtenAll, written, textOf, Markup.Node.text?] using hlex
    · cases hcontent

theorem takeAll_charsToken {s : Text} {token : Token} {page₁ : Page}
    (hchars : s = [] ∧ page₁ = page ∨ s ≠ [] ∧ Build.take (.chars s) page = (.data, page₁))
    (htoken : Build.take token page₁ = (content', page')) :
    takeAll (charsToken s ++ [token]) page = (content', page') := by
  rcases hchars with ⟨rfl, rfl⟩ | ⟨hne, hchars⟩
  · exact htoken
  · rw [charsToken, if_neg hne, List.singleton_append, takeAll, Build.run_bind, hchars]
    · exact htoken
    · exact List.cons_ne_nil _ _

/-- The content of an element without markup is planted in it, without the line feed that reading
takes away. -/
theorem take_content_of_raw {e : Element} {raw : Content} {k : Nat}
    (h : Steady page root (⟨k, tagOf e⟩ :: opened))
    (hskip : page.skipLineFeed = decide ((tagOf e).name = "textarea"))
    (hraw : rawContent? (tagOf e).name = some raw) {ts : List (Tree Markup.Node)}
    (hts : holdsRaw raw ts = true) (mode : Mode) :
    ∃ page', (leadFeed e ts ++ textOf (ts.map value) = [] ∧ page'.inText mode = page.inText mode ∨
        leadFeed e ts ++ textOf (ts.map value) ≠ [] ∧
          Build.take (.chars (leadFeed e ts ++ textOf (ts.map value))) (page.inText mode) =
            (.data, page'.inText mode)) ∧
      Reached page page' root (⟨k, tagOf e⟩ :: opened)
        (Forest.plantAll k (toHtmlAll ts) page.forest) := by
  have hcases : ts = [] ∨ ∃ t, t ≠ [] ∧ textOf (ts.map value) = t ∧
      toHtmlAll ts = [.node (.text t) []] ∧
        ((ts.map value).head?.bind Markup.Node.text?) = some t := by
    rcases holdsRaw_cases hts with rfl | ⟨t, hne, -, ⟨-, rfl⟩ | ⟨-, rfl⟩⟩
    · exact Or.inl rfl
    · exact Or.inr ⟨t, hne, List.append_nil t, rfl, rfl⟩
    · exact Or.inr ⟨t, hne, List.append_nil t, rfl, rfl⟩
  rcases hcases with rfl | ⟨t, hne, htext, hhtml, hhead⟩
  · refine ⟨page, Or.inl ⟨?_, rfl⟩, h, rfl, rfl⟩
    rw [leadFeed, leadingLineFeed]
    simp [textOf]
  · have hdrop : (if page.skipLineFeed ∧ (leadFeed e ts ++ t).head? = some '\n' then
        (leadFeed e ts ++ t).drop 1 else leadFeed e ts ++ t) = t := by
      by_cases hname : (tagOf e).name = "textarea"
      · have hfeed : lineFeedElements.contains e.name = true := by
          rw [← toList_name e, hname]
          decide
        rw [hskip, decide_eq_true hname, leadFeed, leadingLineFeed, hfeed, hhead, Option.bind_some]
        by_cases hstart : t.head? = some '\n'
        · simp [hstart]
        · simp [hstart]
      · rw [hskip, decide_eq_false hname, leadFeed_of_raw hraw ts hname, List.nil_append]
        simp
    obtain ⟨page', htake, hreached, -⟩ := h.take_chars_of_raw hne hdrop mode
    rw [htext, hhtml]
    exact ⟨page', Or.inr ⟨List.append_ne_nil_of_right_ne_nil _ hne, htake⟩, hreached⟩

theorem read_raw (h : Steady page root opened) (hcontent : content.IsData)
    (hmode : (modeOf (pathOf opened)).isOfBody = true) {e : Element} (he : IsTag e) {raw : Content}
    (hadmits : admitsRaw (pathOf opened) (tagOf e).name = true)
    (hraw : rawContent? (tagOf e).name = some raw) {ts : List (Tree Markup.Node)}
    (hts : holdsRaw raw ts = true) (rest : Text) :
    ∃ page', Read content (startTag .html e false ++
          (leadFeed e ts ++ writtenAll ts ++ (endTag e ++ rest))) rest page page' root opened
        (Forest.plantAll page.forest.cells.size (toHtmlAll ts)
          (page.forest.grow (innermost root opened)
            (.element (htmlName (tagOf e).name) (tagOf e).attributes))) ∧
      page'.skipLineFeed = false := by
  obtain ⟨page₁, hstart, hreached₁, hskip⟩ := h.take_startTag_of_raw hmode hadmits hraw
  obtain ⟨page₂, hchars, hreached₂⟩ := hreached₁.steady.take_content_of_raw hskip hraw hts
    (modeOf (pathOf opened))
  have hbased : page₂.isFragment = true ∨ opened ≠ [] := by
    rw [hreached₂.isFragment, hreached₁.isFragment]
    exact h.based
  obtain ⟨page₃, hend, hreached₃, hskip₃⟩ := hreached₂.steady.take_endTag_of_raw
    (Tag.plain (tagOf e).name) hbased hraw
  obtain ⟨u, hu⟩ := startTag_eq e
  have hopen : readAll content (startTag .html e false ++
      (leadFeed e ts ++ writtenAll ts ++ (endTag e ++ rest))) page =
        readAll raw (leadFeed e ts ++ writtenAll ts ++ (endTag e ++ rest))
          (page₁.inText (modeOf (pathOf opened))) := by
    refine readAll_of_lex [.startTag (tagOf e)] ?_ ?_ hstart ?_
    · rw [hu]
      exact List.cons_ne_nil _ _
    · rw [lex_of_isData hcontent (by rw [hu]; simp)]
      exact lexData_startTag he _
    · simp only [hu, List.length_append, List.length_cons]
      omega
  have hclose : readAll raw (leadFeed e ts ++ writtenAll ts ++ (endTag e ++ rest))
      (page₁.inText (modeOf (pathOf opened))) =
        readAll (if (tagOf e).name = "script" then .afterScript else .data) rest page₃ := by
    refine readAll_of_lex _ ?_ (lex_of_holdsRaw he hraw hts _ rest)
      (takeAll_charsToken hchars hend) ?_
    · simp [endTag]
    · simp only [List.length_append, endTag, List.length_cons]
      omega
  refine ⟨page₃, ⟨⟨_, ?_, hopen.trans hclose⟩, hreached₃.steady, ?_, ?_⟩, hskip₃⟩
  · split
    · exact Or.inr rfl
    · exact Or.inl rfl
  · rw [hreached₃.forest, hreached₂.forest, hreached₁.forest]
  · rw [hreached₃.isFragment, hreached₂.isFragment, hreached₁.isFragment]

end Steady

/-! ## Trees -/

theorem Reached.trans {page₁ page₂ : Page} {opened₁ opened₂ : List Opened} {f₁ f₂ : Forest}
    (h : Reached page page₁ root opened₁ f₁) (h' : Reached page₁ page₂ root opened₂ f₂) :
    Reached page page₂ root opened₂ f₂ :=
  ⟨h'.steady, h'.forest, h'.isFragment.trans h.isFragment⟩

theorem Read.andThen {P : Page → Prop} {t u : Text} {page₁ : Page} {opened₁ opened₂ : List Opened}
    {f₁ f₂ : Forest} (h : Read content t u page page₁ root opened₁ f₁)
    (h' : ∀ content, content.IsData →
      ∃ page₂, Read content u rest page₁ page₂ root opened₂ f₂ ∧ P page₂) :
    ∃ page₂, Read content t rest page page₂ root opened₂ f₂ ∧ P page₂ := by
  obtain ⟨content₁, hcontent₁, hread₁⟩ := h.readAll_eq
  obtain ⟨page₂, hnext, hpage₂⟩ := h' content₁ hcontent₁
  obtain ⟨content₂, hcontent₂, hread₂⟩ := hnext.readAll_eq
  exact ⟨page₂, ⟨⟨content₂, hcontent₂, hread₁.trans hread₂⟩, h.reached.trans hnext.reached⟩, hpage₂⟩

/-- The line feed in front of some trees that reading takes away where it is about to drop one. -/
def feedOf (skip : Bool) (ts : List (Tree Markup.Node)) : Text :=
  if skip = true ∧ (((ts.map value).head?).bind Markup.Node.text?).bind List.head? = some '\n' then
    ['\n']
  else []

theorem feedOf_false (ts : List (Tree Markup.Node)) : feedOf false ts = [] :=
  if_neg fun h => Bool.false_ne_true h.1

theorem feedOf_nil (skip : Bool) : feedOf skip [] = [] := if_neg fun h => by cases h.2

theorem feedOf_cons (skip : Bool) (t : Tree Markup.Node) (ts : List (Tree Markup.Node)) :
    feedOf skip (t :: ts) = feedOf skip [t] := rfl

theorem feedOf_of_text? {skip : Bool} {v : Markup.Node} (h : v.text? = none)
    (us ts : List (Tree Markup.Node)) : feedOf skip (.node v us :: ts) = [] := by
  rw [feedOf, List.map_cons, List.head?_cons, Option.bind_some, value, h]
  exact if_neg fun hboth => by cases hboth.2

theorem leadFeed_eq_feedOf (e : Element) (ts : List (Tree Markup.Node)) :
    leadFeed e ts = feedOf (lineFeedElements.contains e.name) ts := by
  simp [leadFeed, leadingLineFeed, feedOf]

/-- Of the elements that lose a line feed, those with markup in them are the page's own. -/
theorem contains_lineFeedTags {e : Element} (hraw : rawContent? (tagOf e).name = none) :
    lineFeedTags.contains (tagOf e).name = lineFeedElements.contains e.name := by
  have hsub : ∀ n ∈ lineFeedTags, n.toList ∈ lineFeedElements := by decide
  have hback : ∀ n ∈ lineFeedElements, String.ofList n ∈ lineFeedTags ∨
      (rawContent? (String.ofList n)).isSome = true := by decide
  rw [Bool.eq_iff_iff, List.contains_iff_mem, List.contains_iff_mem]
  constructor
  · intro hmem
    exact toList_name e ▸ hsub _ hmem
  · intro hmem
    rcases hback _ hmem with hmem | hsome
    · exact hmem
    · rw [show String.ofList e.name = (tagOf e).name from rfl, hraw] at hsome
      cases hsome

theorem written_eq_cons {path : List String} {t : Tree Markup.Node} (h : nests path t = true)
    (ht : t.value.isText = false) : ∃ u, written t = '<' :: u := by
  obtain ⟨v, ts⟩ := t
  cases v with
  | text t => cases ht
  | element e => exact ⟨_, rfl⟩
  | comment t => exact ⟨_, rfl⟩
  | _ => cases h

theorem endsText_writtenAll {path : List String} {ts : List (Tree Markup.Node)}
    (h : nestsAll path ts = true) (ht : ¬(ts.head?.any fun u => u.value.isText) = true)
    (hrest : EndsText rest) : EndsText (writtenAll ts ++ rest) := by
  cases ts with
  | nil => exact hrest
  | cons u ts =>
    rw [nestsAll, Bool.and_eq_true, Bool.and_eq_true] at h
    obtain ⟨w, hw⟩ := written_eq_cons h.1.1 (by simpa using ht)
    intro c hc
    rw [writtenAll, hw] at hc
    exact (Option.some.inj hc).symm

theorem Steady.read_feed (h : Steady page root opened) (hcontent : content.IsData)
    (hmode : (modeOf (pathOf opened)).isOfBody = true) (hs : IsSafeText t) (hne : t ≠ [])
    (us : List (Tree Markup.Node)) (hrest : EndsText rest) :
    ∃ page', Read content
        (feedOf page.skipLineFeed [.node (.text t) us] ++ escapeText .html t ++ rest) rest page
        page' root opened (page.forest.appendText (innermost root opened) t) ∧
      page'.skipLineFeed = false := by
  by_cases hboth : page.skipLineFeed = true ∧ t.head? = some '\n'
  · have hfeed : feedOf page.skipLineFeed [.node (.text t) us] = ['\n'] := if_pos hboth
    have hescape : ['\n'] ++ escapeText .html t = escapeText .html ('\n' :: t) := rfl
    have hsafe : IsSafeText ('\n' :: t) :=
      ⟨⟨by simpa using hs.1.1, by simpa using hs.1.2⟩, by simpa using hs.2⟩
    rw [hfeed, hescape]
    exact h.read_text hcontent hmode hsafe hne (if_pos ⟨hboth.1, rfl⟩) hrest
  · have hfeed : feedOf page.skipLineFeed [.node (.text t) us] = [] := if_neg hboth
    rw [hfeed, List.nil_append]
    exact h.read_text hcontent hmode hs hne (if_neg hboth) hrest

theorem endsText_endTag (e : Element) (rest : Text) : EndsText (endTag e ++ rest) := by
  intro c hc
  exact (Option.some.inj hc).symm

/-- Between the tags of an element its children are read. -/
theorem Steady.read_element (h : Steady page root opened) (hcontent : content.IsData)
    (hmode : (modeOf (pathOf opened)).isOfBody = true) {e : Element} (he : IsTag e)
    (hadmits : admits (pathOf opened) (tagOf e).name = true)
    (hraw : rawContent? (tagOf e).name = none) (hvoid : roleOf? (tagOf e).name ≠ some .void)
    {ts : List (Tree Markup.Node)} (rest : Text)
    (hchildren : ∀ {page₁ : Page} {content₁ : Content},
      Steady page₁ root (⟨page.forest.cells.size, tagOf e⟩ :: opened) → content₁.IsData →
        ∃ page₂, Read content₁
          (feedOf page₁.skipLineFeed ts ++ writtenAll ts ++ (endTag e ++ rest)) (endTag e ++ rest)
          page₁ page₂ root (⟨page.forest.cells.size, tagOf e⟩ :: opened)
          (Forest.plantAll page.forest.cells.size (toHtmlAll ts) page₁.forest)) :
    ∃ page', Read content (startTag .html e false ++
          (leadFeed e ts ++ writtenAll ts ++ (endTag e ++ rest))) rest page page' root opened
        (Forest.plantAll page.forest.cells.size (toHtmlAll ts)
          (page.forest.grow (innermost root opened)
            (.element (htmlName (tagOf e).name) (tagOf e).attributes))) ∧
      page'.skipLineFeed = false := by
  rw [leadFeed_eq_feedOf, ← contains_lineFeedTags hraw]
  obtain ⟨page₁, hread₁, hskip₁⟩ := h.read_startTag hcontent hmode he hadmits hvoid
    (feedOf (lineFeedTags.contains (tagOf e).name) ts ++ writtenAll ts ++ (endTag e ++ rest))
  rw [← hread₁.reached.forest]
  refine hread₁.andThen fun content₁ hcontent₁ => ?_
  obtain ⟨page₂, hread₂⟩ := hchildren hread₁.reached.steady hcontent₁
  rw [hskip₁] at hread₂
  refine hread₂.andThen fun content₂ hcontent₂ => ?_
  have hbased : page₂.isFragment = true ∨ opened ≠ [] := by
    rw [hread₂.reached.isFragment, hread₁.reached.isFragment]
    exact h.based
  obtain ⟨page₃, hread₃, hskip₃⟩ := hread₂.reached.steady.read_endTag hcontent₂ hmode he hadmits
    hvoid hbased rest
  rw [hread₂.reached.forest] at hread₃
  exact ⟨page₃, hread₃, hskip₃⟩

mutual

theorem read_written : (t : Tree Markup.Node) → {page : Page} → {opened : List Opened} →
    {content : Content} → Steady page root opened → content.IsData →
    nests (pathOf opened) t = true → (rest : Text) → (t.value.isText = true → EndsText rest) →
      ∃ page', Read content (feedOf page.skipLineFeed [t] ++ written t ++ rest) rest page page' root
          opened (Forest.plant (innermost root opened) (toHtml t) page.forest) ∧
        page'.skipLineFeed = false
  | .node v ts, page, opened, content, h, hcontent, hnests, rest, hrest => by
    cases v with
    | text t =>
      simp only [nests, Bool.and_eq_true, decide_eq_true_eq] at hnests
      obtain ⟨⟨⟨-, hmode⟩, hne⟩, hsafe⟩ := hnests
      exact h.read_feed hcontent hmode hsafe (by simpa using hne) ts (hrest rfl)
    | comment t =>
      simp only [nests, Bool.and_eq_true, decide_eq_true_eq] at hnests
      rw [feedOf_of_text? rfl]
      exact h.read_comment hcontent hnests.1.2 hnests.2 rest
    | element e =>
      rw [nests, Bool.and_eq_true, Bool.and_eq_true, decide_eq_true_eq, fits_iff] at hnests
      obtain ⟨⟨he, hmode, hfits⟩, hnests⟩ := hnests
      rw [feedOf_of_text? rfl, List.nil_append, written]
      cases hraw : rawContent? (tagOf e).name with
      | some raw =>
        rw [hraw] at hnests hfits
        have hvoid := isVoid_eq_false (not_void_of_raw hraw) (Or.inr (by rw [hraw]; rfl))
        obtain ⟨page', hread, hskip⟩ := h.read_raw hcontent hmode he hfits hraw hnests rest
        refine ⟨page', ?_, hskip⟩
        rw [hvoid, if_neg Bool.false_ne_true]
        simpa only [List.append_assoc, toHtml, Forest.plant] using hread
      | none =>
        rw [hraw] at hnests hfits
        have hadmits : admits (pathOf opened) (tagOf e).name = true := hfits
        obtain ⟨r, hrole⟩ := exists_role_of_admits hadmits
        dsimp only at hnests
        split at hnests
        next hvoid =>
          obtain rfl := List.isEmpty_iff.1 hnests
          obtain ⟨page', hread, hskip⟩ := h.read_void hcontent hmode he hadmits hvoid rest
          refine ⟨page', ?_, hskip⟩
          rw [isVoid_of_void hvoid, if_pos rfl, leadFeed_eq_feedOf, feedOf_nil]
          simpa only [writtenAll, List.append_nil, toHtml, toHtmlAll, Forest.plant, Forest.plantAll]
            using hread
        next hvoid =>
          rw [isVoid_eq_false hvoid (Or.inl ⟨r, hrole⟩), if_neg Bool.false_ne_true]
          obtain ⟨page', hread, hskip⟩ := h.read_element hcontent hmode he hadmits hraw hvoid rest
            fun hsteady hdata =>
              read_writtenAll ts hsteady hdata hnests (endTag e ++ rest) (endsText_endTag e rest)
          refine ⟨page', ?_, hskip⟩
          simpa only [List.append_assoc, toHtml, Forest.plant] using hread
    | _ => cases hnests

theorem read_writtenAll : (ts : List (Tree Markup.Node)) → {page : Page} →
    {opened : List Opened} → {content : Content} → Steady page root opened → content.IsData →
    nestsAll (pathOf opened) ts = true → (rest : Text) → EndsText rest →
      ∃ page', Read content (feedOf page.skipLineFeed ts ++ writtenAll ts ++ rest) rest page page'
        root opened (Forest.plantAll (innermost root opened) (toHtmlAll ts) page.forest)
  | [], page, opened, content, h, hcontent, hnests, rest, hrest =>
    ⟨page, ⟨content, hcontent, by rw [feedOf_nil]; rfl⟩, h, rfl, rfl⟩
  | t :: ts, page, opened, content, h, hcontent, hnests, rest, hrest => by
    rw [nestsAll, Bool.and_eq_true, Bool.and_eq_true] at hnests
    obtain ⟨⟨ht, hapart⟩, hts⟩ := hnests
    have hbehind : t.value.isText = true → EndsText (writtenAll ts ++ rest) := by
      intro htext
      rw [htext, Bool.not_true, Bool.false_or, Bool.not_eq_true'] at hapart
      exact endsText_writtenAll hts (by rw [hapart]; exact Bool.false_ne_true) hrest
    obtain ⟨page₁, hread, hskip⟩ := read_written t h hcontent ht (writtenAll ts ++ rest) hbehind
    have hthen : ∃ page₂, Read content (feedOf page.skipLineFeed [t] ++ written t ++
        (writtenAll ts ++ rest)) rest page page₂ root opened
        (Forest.plantAll (innermost root opened) (toHtmlAll ts) page₁.forest) ∧ True := by
      refine hread.andThen fun content₁ hcontent₁ => ?_
      obtain ⟨page₂, hread₂⟩ := read_writtenAll ts hread.reached.steady hcontent₁ hts rest hrest
      rw [hskip, feedOf_false, List.nil_append] at hread₂
      exact ⟨page₂, hread₂, trivial⟩
    obtain ⟨page₂, hread₂, -⟩ := hthen
    rw [hread.reached.forest] at hread₂
    refine ⟨page₂, ?_⟩
    rw [feedOf_cons, writtenAll, toHtmlAll, Forest.plantAll]
    simpa only [List.append_assoc] using hread₂

end

end Html

end PrettyPayload
