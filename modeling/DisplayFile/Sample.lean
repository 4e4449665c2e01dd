import DisplayFile.Source

/-!
# A sample display file

A customer inquiry with two record formats, a continuation marker, comments, and usages on both
sides of the declarations they refer to.
-/

namespace DisplayFile

def sampleText : String :=
  "A*%%TS  SD  20240312  101512  DEVUSER     REL-V7R4M0  5770-WDS\n" ++
  "     A                                      DSPSIZ(24 80 *DS3)\n" ++
  "     A                                      CA03(03 'Exit')\n" ++
  "     A          R PROMPT\n" ++
  "     A                                  1  2'Customer inquiry'\n" ++
  "     A  CUSTNO         7S 0B  3 20DSPATR(&CUSTATR)\n" ++
  "     A  CUSTATR        1A  P          ALIAS(CUSTOMER_ATTRIBUTE)\n" ++
  "     A* Message line\n" ++
  "     A  MSGTXT        70A  O 24  2DSPATR(&MSGATR) §|§\n" ++
  "     A  MSGATR         1A  P          ALIAS(MESSAGE_ATTRIBUTE)\n" ++
  "     A          R DETAIL\n" ++
  "     A  CUSTNM        30A  O  5 20DSPATR(&NAMEATR)\n" ++
  "     A  NAMEATR        1A  P          ALIAS(NAME_ATTRIBUTE)\n" ++
  "     A  CUSTAD        30A  O  6 20DSPATR(&NAMEATR)\n" ++
  "     A  ORPHAN         1A  O  7 20DSPATR(&CUSTATR)\n"

def Source.sample : Source := .ofText sampleText.toList

end DisplayFile
