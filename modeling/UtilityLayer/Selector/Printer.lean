import UtilityLayer.Css.Name
import UtilityLayer.Selector.Basic

/-!
# Writing selectors

The usual notation: class and id names escaped, combinators between spaces, and
the branches of a list after commas. An attribute without a value is written by
its name alone.
-/

set_option autoImplicit false

namespace UtilityLayer.Selector

open Css

def Combinator.print : Combinator → Text
  | descendant => " "
  | child => " > "
  | adjacent => " + "
  | sibling => " ~ "

mutual

def Simple.print : Simple → Text
  | .element name => name
  | .className name => classSelector name
  | .ident name => '#' :: escape name
  | .universal => ['*']
  | .parent => ['&']
  | .pseudoClass name => ':' :: name
  | .pseudoElement name => ':' :: ':' :: name
  | .functional name branches => ':' :: name ++ '(' :: printBranches branches ++ [')']
  | .functionalText name argument => ':' :: name ++ '(' :: argument ++ [')']
  | .attribute name value => '[' :: name ++ (if value = [] then [] else '=' :: value) ++ [']']

def printCompound : List Simple → Text
  | [] => []
  | s :: ss => s.print ++ printCompound ss

def Complex.print : Complex → Text
  | .last c => printCompound c
  | .link c k rest => printCompound c ++ k.print ++ rest.print

def printBranches : List Complex → Text
  | [] => []
  | [x] => x.print
  | x :: xs => x.print ++ ',' :: ' ' :: printBranches xs

end

end UtilityLayer.Selector
