import PrettyPayload.Markup.OfHtml
import PrettyPayload.Markup.StylePass
import PrettyPayload.Proofs.Css.Padding
import PrettyPayload.Proofs.Markup.Links

/-!
# Stylesheets in a document stay what they are

The style pass writes the stylesheet of every style element between two line feeds and moves its
lines to the right. From such a block the same stylesheet is read (`parseStylesheet_styleBlock`), as
long as none of its texts has a line feed: a literal that goes on over the next line takes the
padding of that line in. One step of the pass changes the text of one element only, so the pass
keeps the stylesheets of all of them.
-/

namespace PrettyPayload

namespace Markup

open Css (parseStylesheet)

variable {padding inner outer : Text} {sheet : Css.Stylesheet}

/-! ## Blocks -/

/-- The lines of a stylesheet without line feeds in its texts are moved to the right. -/
theorem styleBlock_eq (hi : '\n' ∉ inner) (h : Css.Item.AllOneLine sheet.rules)
    (hne : sheet.pretty inner ≠ []) :
    styleBlock padding (sheet.pretty inner) =
      '\n' :: (padding ++ Text.padLines padding (sheet.pretty inner)) ++ ['\n'] := by
  have hlines := Css.Item.isLine_of_mem_linesOfAll hi sheet.rules h 0
  have hne' : Css.Item.linesOfAll inner 0 sheet.rules ≠ [] := by
    intro hnil
    rw [Css.Stylesheet.pretty, hnil] at hne
    exact hne rfl
  have hmap : (Css.Item.linesOfAll inner 0 sheet.rules).map
      (fun line => if line = [] then [] else padding ++ line) =
        (Css.Item.linesOfAll inner 0 sheet.rules).map (padding ++ ·) :=
    List.map_congr_left fun line hline => if_neg (hlines line hline).ne_nil
  rw [styleBlock, if_neg hne, Css.Stylesheet.pretty, Text.lines_joinWith hlines, hmap,
    Text.joinWith_map_append hne' fun line hline => (hlines line hline).1]

/-- A stylesheet that is read from its written form is read from its block, if none of its texts has
a line feed. -/
theorem parseStylesheet_styleBlock (hi : '\n' ∉ inner) (hp : ∀ c ∈ padding, c = ' ' ∨ c = '\t')
    (hsheet : parseStylesheet (sheet.pretty inner) = .ok sheet)
    (h : Css.Item.AllOneLine sheet.rules) :
    parseStylesheet (styleBlock padding (sheet.pretty inner)) = .ok sheet := by
  by_cases hne : sheet.pretty inner = []
  · rw [styleBlock, if_pos hne]
    rwa [hne] at hsheet
  · have hfeed : ∀ c ∈ ['\n'], Text.isAsciiBlank c = true :=
      List.forall_mem_singleton.2 (by decide)
    rw [styleBlock_eq hi h hne]
    exact Css.parseStylesheet_padLines_of_oneLine hp hfeed hsheet h

namespace Document

variable {d : Document} {h k : Nat} {node : Node}

/-! ## The pass -/

theorem childText_replaceChildren (hh : h < d.cells.size) (t : Text) :
    (d.replaceChildren h (.css t)).childText h = t := by
  rw [childText, children_replaceChildren hh, if_pos rfl, List.flatMap_singleton,
    node?_replaceChildren hh, if_pos rfl]
  rfl

theorem childText_replaceChildren_of_ne (hne : k ≠ h) (node : Node) :
    (d.replaceChildren k node).childText h = d.childText h := by
  by_cases hk : k < d.cells.size
  · rw [childText, children_replaceChildren hk, if_neg hne, childText]
    refine List.flatMap_congr fun c hc => ?_
    rw [node?_replaceChildren hk, if_neg (Nat.ne_of_lt (lt_of_mem_children hc).2)]
  · rw [replaceChildren_of_le (Nat.le_of_not_lt hk)]

/-- Whatever elements are rewritten, the stylesheet of a node stays. The induction is on the
elements, and each step either writes the same stylesheet or leaves the text of the node. -/
theorem parse_childText_reindentEach (hinner : ∀ c ∈ inner, c = ' ' ∨ c = '\t')
    (houter : ∀ c ∈ outer, c = ' ' ∨ c = '\t')
    (hpretty : parseStylesheet (sheet.pretty inner) = .ok sheet)
    (hline : Css.Item.AllOneLine sheet.rules) (targets : List Nat)
    (hsheet : parseStylesheet (d.childText h) = .ok sheet) :
    parseStylesheet ((d.reindentEach inner outer targets).1.childText h) = .ok sheet := by
  have hfeed : '\n' ∉ inner := fun hc => (hinner '\n' hc).elim (by decide) (by decide)
  induction targets generalizing d with
  | nil => exact hsheet
  | cons k ks ih =>
    rw [reindentEach]
    split
    next => exact hsheet
    next sheet' hk =>
      refine ih ?_
      have hp := Text.forall_mem_times (d.depth k + 1) houter
      by_cases hne : k = h
      · subst hne
        obtain rfl : sheet' = sheet := Except.ok.inj (hk.symm.trans hsheet)
        by_cases hh : k < d.cells.size
        · rw [childText_replaceChildren hh]
          exact parseStylesheet_styleBlock hfeed hp hpretty hline
        · rwa [replaceChildren_of_le (Nat.le_of_not_lt hh)]
      · rwa [childText_replaceChildren_of_ne hne]

/-- The style pass keeps every stylesheet that is read from its written form and has no line feed in
its texts, wherever its element is. -/
theorem parse_childText_reindentStyles (hinner : ∀ c ∈ inner, c = ' ' ∨ c = '\t')
    (houter : ∀ c ∈ outer, c = ' ' ∨ c = '\t')
    (hsheet : parseStylesheet (d.childText h) = .ok sheet)
    (hpretty : parseStylesheet (sheet.pretty inner) = .ok sheet)
    (hline : Css.Item.AllOneLine sheet.rules) :
    parseStylesheet ((d.reindentStyles inner outer).1.childText h) = .ok sheet :=
  parse_childText_reindentEach hinner houter hpretty hline d.styleElements hsheet

def nestedPage : Document :=
  .ofPage (Html.read
    ("<div><p>x<style>a,b[c='\x7d']\x7bd:e!important;f:\x7d" ++
      "@media g\x7bh\x7bi:j\x7d\x7d</style></p></div>").toList)

def nestedSheet : Css.Stylesheet where
  rules :=
    [.block (.style [['a'], "b[c='\x7d']".toList])
        [.declaration ⟨['d'], ['e'], true⟩, .declaration ⟨['f'], [], false⟩],
      .block (.atRule "media".toList ['g'])
        [.block (.style [['h']]) [.declaration ⟨['i'], ['j'], false⟩]]]
  all_isRule := by simp

/-- The stylesheet of the sample is written four tabs deep and read again. -/
theorem parse_childText_reindentStyles_nestedPage :
    nestedPage.styleElements = [4] ∧
      parseStylesheet (nestedPage.childText 4) = .ok nestedSheet ∧
      parseStylesheet (nestedSheet.pretty ['\t']) = .ok nestedSheet ∧
      parseStylesheet ((nestedPage.reindentStyles ['\t'] ['\t']).1.childText 4) =
        .ok nestedSheet := by
  have hread : parseStylesheet (nestedPage.childText 4) = .ok nestedSheet := by decide +kernel
  have hpretty : parseStylesheet (nestedSheet.pretty ['\t']) = .ok nestedSheet := by decide +kernel
  have hline : Css.Item.AllOneLine nestedSheet.rules := by
    simp [nestedSheet, Css.Item.AllOneLine, Css.Item.OneLine, Css.Head.OneLine,
      Css.Declaration.OneLine]
  have htab : ∀ c ∈ ['\t'], c = ' ' ∨ c = '\t' := by simp
  exact ⟨by decide +kernel, hread, hpretty,
    parse_childText_reindentStyles htab htab hread hpretty hline⟩

/-- A page with a stylesheet whose literal goes on over the next line. -/
def continuedPage : Document :=
  .ofPage (Html.read "<style>a\x7bb:\"x\\\ny\"\x7d</style>".toList)

def continuedSheet : Css.Stylesheet where
  rules := [.block (.style [['a']]) [.declaration ⟨['b'], "\"x\\\ny\"".toList, false⟩]]
  all_isRule := by simp

/-- The style pass puts the padding of a line into the literal that goes on over it. -/
theorem styles_pad_continuedPage :
    continuedPage.styleElements = [1] ∧ continuedPage.ancestors 1 = [root] ∧
      parseStylesheet (continuedPage.childText 1) = .ok continuedSheet ∧
      parseStylesheet (continuedSheet.pretty ['\t']) = .ok continuedSheet ∧
      (continuedPage.reindentStyles ['\t'] ['\t']).2 = .ok 1 ∧
      parseStylesheet ((continuedPage.reindentStyles ['\t'] ['\t']).1.childText 1) ≠
        .ok continuedSheet := by
  decide +kernel

end Document

end Markup

end PrettyPayload
