import PrettyPayload.Html.Page.Table

/-!
# Taking a token up

`step` applies the rule of the current mode to a token, `stepForeign` the rules for SVG and MathML
content. `settle` repeats that until the token, and what it was split into, is dealt with.
-/

namespace PrettyPayload

namespace Html

namespace Build

/-! ## Lists of options and templates -/

def inSelect (token : Token) : Build Step := do
  match token with
  | .chars t => appendText t; done
  | .comment t => appendComment t
  | .startTag tag =>
    match tag.name with
    | "html" => mergeRoot tag
    | "option" =>
      if (← get).currentIs "option" then pop
      let _ ← insertFor tag
      done
    | "optgroup" =>
      if (← get).currentIs "option" then pop
      if (← get).currentIs "optgroup" then pop
      let _ ← insertFor tag
      done
    | "select" =>
      if (← get).inScopeNamed selectScope ["select"] then
        popUntilNamed "select"
        modify fun page => { page with mode := page.fittingMode }
      done
    | "input" | "keygen" | "textarea" =>
      if (← get).inScopeNamed selectScope ["select"] then
        popUntilNamed "select"
        return .reprocess (← get).fittingMode token
      else done
    | "script" | "template" => startInHead tag
    | _ => done
  | .endTag tag =>
    match tag.name with
    | "optgroup" =>
      let page ← get
      let outer := page.stack[page.stack.size - 2]?
      if page.stack.size ≥ 2 && page.currentIs "option" &&
          outer.any fun h => page.nameOf h = htmlName "optgroup" then pop
      if (← get).currentIs "optgroup" then pop
      done
    | "option" =>
      if (← get).currentIs "option" then pop
      done
    | "select" =>
      if (← get).inScopeNamed selectScope ["select"] then
        popUntilNamed "select"
        modify fun page => { page with mode := page.fittingMode }
      done
    | "template" => endTemplate
    | _ => done
  | .eof => inBody token
  | _ => done

def inSelectInTable (token : Token) : Build Step := do
  let parts := ["caption", "table", "tbody", "tfoot", "thead", "tr", "td", "th"]
  let leave : Build Step := do
    popUntilNamed "select"
    return .reprocess (← get).fittingMode token
  match token with
  | .startTag tag => if parts.contains tag.name then leave else inSelect token
  | .endTag tag =>
    if parts.contains tag.name then
      if (← get).inScopeNamed tableScope [tag.name] then leave else done
    else inSelect token
  | _ => inSelect token

def inTemplate (token : Token) : Build Step := do
  let switch (mode : Mode) : Build Step := do
    modify fun page => { page with templateModes := mode :: page.templateModes.drop 1 }
    return .reprocess mode token
  match token with
  | .chars _ => inBody token
  | .comment _ => inBody token
  | .startTag tag =>
    if headTags.contains tag.name then startInHead tag
    else
      match tag.name with
      | "caption" | "colgroup" | "tbody" | "tfoot" | "thead" => switch .inTable
      | "col" => switch .inColumnGroup
      | "tr" => switch .inTableBody
      | "td" | "th" => switch .inRow
      | _ => switch .inBody
  | .endTag tag => if tag.name = "template" then endTemplate else done
  | .eof => inTemplateEof
  | _ => done

/-! ## Before the head, and after it -/

def inInitial (token : Token) : Build Step := do
  let onward : Build Step := do
    modify fun page => { page with oldPage := true }
    return .reprocess .beforeHtml token
  match token with
  | .chars t =>
    match runOf t with
    | .mixed => return .split t
    | .blank => done
    | .solid => onward
  | .comment t => appendCommentTo Forest.root t
  | _ => onward

/-- The end tags that open what was left out, and not only get lost. -/
def opensMissing (name : String) : Bool := ["head", "body", "html", "br"].contains name

def inBeforeHtml (token : Token) : Build Step := do
  let onward : Build Step := do
    createRoot []
    return .reprocess .beforeHead token
  match token with
  | .chars t =>
    match runOf t with
    | .mixed => return .split t
    | .blank => done
    | .solid => onward
  | .comment t => appendCommentTo Forest.root t
  | .startTag tag =>
    if tag.name = "html" then
      createRoot tag.attributes
      setMode .beforeHead
      done
    else onward
  | .endTag tag => if opensMissing tag.name then onward else done
  | _ => onward

def inBeforeHead (token : Token) : Build Step := do
  let onward : Build Step := do
    let h ← insertMissing "head"
    modify fun page => { page with head := some h }
    return .reprocess .inHead token
  match token with
  | .chars t =>
    match runOf t with
    | .mixed => return .split t
    | .blank => done
    | .solid => onward
  | .comment t => appendComment t
  | .startTag tag =>
    match tag.name with
    | "html" => mergeRoot tag
    | "head" =>
      let h ← insertFor tag
      modify fun page => { page with head := some h, mode := .inHead }
      done
    | _ => onward
  | .endTag tag => if opensMissing tag.name then onward else done
  | _ => onward

def inAfterHead (token : Token) : Build Step := do
  let onward : Build Step := do
    let _ ← insertMissing "body"
    return .reprocess .inBody token
  match token with
  | .chars t =>
    match runOf t with
    | .mixed => return .split t
    | .blank => appendText t; done
    | .solid => onward
  | .comment t => appendComment t
  | .startTag tag =>
    if headTags.contains tag.name then
      match (← get).head with
      | some head =>
        push head
        let step ← startInHead tag
        removeFromStack head
        return step
      | none => done
    else
      match tag.name with
      | "html" => mergeRoot tag
      | "body" =>
        let _ ← insertFor tag
        refuseFrameset
        setMode .inBody
        done
      | "frameset" =>
        let _ ← insertFor tag
        setMode .inFrameset
        done
      | "head" => done
      | _ => onward
  | .endTag tag =>
    match tag.name with
    | "template" => endTemplate
    | "body" | "html" | "br" => onward
    | _ => done
  | _ => onward

/-! ## After the body, and frames -/

def inAfterBody (token : Token) : Build Step := do
  match token with
  | .chars t =>
    match runOf t with
    | .mixed => return .split t
    | .blank => inBody token
    | .solid => return .reprocess .inBody token
  | .comment t => appendCommentTo (← get).outermost t
  | .startTag tag =>
    if tag.name = "html" then mergeRoot tag else return .reprocess .inBody token
  | .endTag tag =>
    if tag.name = "html" then
      if !(← get).isFragment then setMode .afterAfterBody
      done
    else return .reprocess .inBody token
  | .eof => done
  | _ => return .reprocess .inBody token

def inAfterAfterBody (token : Token) : Build Step := do
  match token with
  | .chars t =>
    match runOf t with
    | .mixed => return .split t
    | .blank => inBody token
    | .solid => return .reprocess .inBody token
  | .comment t => appendCommentTo Forest.root t
  | .startTag tag =>
    if tag.name = "html" then mergeRoot tag else return .reprocess .inBody token
  | .eof => done
  | _ => return .reprocess .inBody token

def inFrameset (token : Token) : Build Step := do
  match token with
  | .chars t =>
    match runOf t with
    | .mixed => return .split t
    | .blank => appendText t; done
    | .solid => done
  | .comment t => appendComment t
  | .startTag tag =>
    match tag.name with
    | "html" => mergeRoot tag
    | "frameset" =>
      let _ ← insertFor tag
      done
    | "frame" =>
      let _ ← insertVoid tag
      done
    | "noframes" => startInHead tag
    | _ => done
  | .endTag tag =>
    if tag.name = "frameset" ∧ (← get).stack.size ≠ 1 then
      pop
      let page ← get
      if !page.isFragment && !page.currentIs "frameset" then setMode .afterFrameset
    done
  | _ => done

def inAfterFrameset (token : Token) : Build Step := do
  match token with
  | .chars t =>
    match runOf t with
    | .mixed => return .split t
    | .blank => appendText t; done
    | .solid => done
  | .comment t => appendComment t
  | .startTag tag =>
    match tag.name with
    | "html" => mergeRoot tag
    | "noframes" => startInHead tag
    | _ => done
  | .endTag tag =>
    if tag.name = "html" then setMode .afterAfterFrameset
    done
  | _ => done

def inAfterAfterFrameset (token : Token) : Build Step := do
  match token with
  | .chars t =>
    match runOf t with
    | .mixed => return .split t
    | .blank => inBody token
    | .solid => done
  | .comment t => appendCommentTo Forest.root t
  | .startTag tag =>
    match tag.name with
    | "html" => mergeRoot tag
    | "noframes" => startInHead tag
    | _ => done
  | _ => done

def inText (token : Token) : Build Step := do
  match token with
  | .chars t => appendText t; done
  | .eof =>
    pop
    return .reprocess (← get).returnMode token
  | .endTag tag =>
    pop
    modify fun page => { page with mode := page.returnMode }
    if tag.name = "script" then return .content .afterScript else done
  | _ => done

def step (mode : Mode) (token : Token) : Build Step :=
  match mode with
  | .initial => inInitial token
  | .beforeHtml => inBeforeHtml token
  | .beforeHead => inBeforeHead token
  | .inHead => inHead token
  | .afterHead => inAfterHead token
  | .inBody => inBody token
  | .text => inText token
  | .inTable => inTable token
  | .inTableText => inTableText token
  | .inCaption => inCaption token
  | .inColumnGroup => inColumnGroup token
  | .inTableBody => inTableBody token
  | .inRow => inRow token
  | .inCell => inCell token
  | .inSelect => inSelect token
  | .inSelectInTable => inSelectInTable token
  | .inTemplate => inTemplate token
  | .afterBody => inAfterBody token
  | .inFrameset => inFrameset token
  | .afterFrameset => inAfterFrameset token
  | .afterAfterBody => inAfterAfterBody token
  | .afterAfterFrameset => inAfterAfterFrameset token

/-! ## Foreign content -/

def isForeign (page : Page) (token : Token) : Bool :=
  if page.stack.isEmpty then false
  else
    let name := page.adjustedName
    match token with
    | .eof => false
    | .chars _ | .null =>
      name.space ≠ .html && !isMathTextPoint name && !isSvgHtmlPoint name
    | .startTag tag =>
      name.space ≠ .html && !isSvgHtmlPoint name &&
        !(isMathTextPoint name && tag.name ≠ "mglyph" && tag.name ≠ "malignmark") &&
        !(name = ⟨.mathml, "annotation-xml"⟩ && tag.name = "svg")
    | _ => name.space ≠ .html

def foreignElement (tag : Tag) : Build Step := do
  let space := (← get).adjustedName.space
  let tag := foreignAttributes space tag
  let localName := if space = .svg then respell svgElementNames tag.name else tag.name
  let _ ← if tag.selfClosing then insertClosed ⟨space, localName⟩ tag.attributes
    else insertOpen ⟨space, localName⟩ tag.attributes
  done

/-- A start tag that ends foreign content; in a fragment it does not. -/
def breakOut (tag : Tag) : Build Step := do
  if (← get).isFragment then foreignElement tag
  else
    pop
    popWhile fun n => !(n.space = .html || isMathTextPoint n || isSvgHtmlPoint n)
    return .again (.startTag tag)

/-- What an end tag does in foreign content, looking at the open elements, innermost first: one of
its name is closed, whatever its case; at an HTML element the rules of the mode apply. -/
def endForeign (token : Token) (name : String) (first : Bool) : List Nat → Build Step
  | [] => done
  | [_] => done
  | h :: outer => do
    let page ← get
    let found := page.nameOf h
    if !first && found.space = .html then step page.mode token
    else if Text.equalsIgnoringCase found.localName.toList name.toList then
      set { page with stack := page.stack.extract 0 outer.length }
      done
    else endForeign token name false outer

def stepForeign (token : Token) : Build Step := do
  match token with
  | .null => appendText [replacement]; done
  | .chars t =>
    if runOf t ≠ .blank then refuseFrameset
    appendText t
    done
  | .comment t => appendComment t
  | .startTag tag =>
    let styled := ["color", "face", "size"].any fun name => (tag.attribute? name).isSome
    if breakoutTags.contains tag.name ∨ (tag.name = "font" ∧ styled) then breakOut tag
    else foreignElement tag
  | .endTag tag => endForeign token tag.name true (← get).stack.toList.reverse
  | _ => done

/-! ## The next token -/

def firstRun (t : Text) : Text × Text :=
  let blank := (t.head?).any isSpace
  (t.takeWhile fun c => isSpace c = blank, t.dropWhile fun c => isSpace c = blank)

/-- Deals with some tokens in order, in at most so many steps; the result says how the text ahead
is read. -/
def settle : (steps : Nat) → List Token → Build Content
  | 0, _ => pure .data
  | _, [] => pure .data
  | steps + 1, token :: tokens => do
    let page ← get
    let outcome ← if isForeign page token then stepForeign token else step page.mode token
    match outcome with
    | .done => settle steps tokens
    | .reprocess mode token =>
      setMode mode
      settle steps (token :: tokens)
    | .again token => settle steps (token :: tokens)
    | .split t =>
      let (run, rest) := firstRun t
      settle steps (.chars run :: if rest = [] then tokens else .chars rest :: tokens)
    | .content content => pure content

/-- The number of steps that a token may need: each run of characters can pass through every mode
and close every open element. -/
def stepsFor (page : Page) : Token → Nat
  | .chars t => (t.length + 1) * (page.stack.size + 64)
  | _ => page.stack.size + 64

def take (token : Token) : Build Content := do
  let page ← get
  set { page with skipLineFeed := false }
  match token with
  | .fault => pure .data
  | .doctype d =>
    if page.mode = .initial then
      let h ← create (.doctype (d.name.getD []) (d.publicId.getD []) (d.systemId.getD []))
      onForest fun f => f.append Forest.root h
      modify fun page => { page with oldPage := d.marksOldPage, mode := .beforeHtml }
    pure .data
  | .chars t =>
    let t := if page.skipLineFeed ∧ t.head? = some '\n' then t.drop 1 else t
    if t = [] then pure .data else settle (stepsFor page token) [.chars t]
  | _ => settle (stepsFor page token) [token]

end Build

end Html

end PrettyPayload
