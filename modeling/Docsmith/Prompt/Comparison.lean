import Docsmith.Prompt.Slot

/-! # The prompt for a comparison -/

namespace Docsmith.Prompt

def comparisonTemplate : String :=
  "\n"
    ++ "You are an expert in software development.\n"
    ++ "Below are multiple software with similar functions. \n"
    ++ "They may have different solutions to the same problem, for example, zip and tar are "
    ++ "different methods for decompression.\n"
    ++ "They may be old and latest versions of the same software and therefore differ in "
    ++ "capabilities.\n\n"
    ++ "Your task is to distinguish the similarities and differences between the functions of "
    ++ "the software and tell me which should be used in which scenarios.\n\n"
    ++ "\x7bsoftware\x7d\n\n"
    ++ "Please compare the two software and write a comparison report with the help of a table\n"
    ++ formatNote ++ "\n"
    ++ "> | FEATURE POINTS | Software 1 | Software 2 | ... |\n"
    ++ "> | ---- | ---- | ---- | ... |\n"
    ++ "> | point1 | How Software 1 perform on point1 | How Software 2 perform on point1 | ... "
    ++ "|\n"
    ++ "> | point2 | **How Software 1 perform on point2** | How Software 2 perform on point2 | "
    ++ "... |\n"
    ++ "> | point3 | How Software 1 perform on point3 | X  | ... |\n"
    ++ "> | point4 | X | How Software 2 perform on point4 | ... |\n"
    ++ "> | ... | ... | ... | ... |\n"
    ++ ">\n"
    ++ "> Summary\n"
    ++ "> - Software 1 is better because ...\n"
    ++ "> - Software 2 should be used in XXX scenarios because ...\n"
    ++ "> ...\n\n"
    ++ workflow
    ++ "1. Understand the Software. Read through the documents of each software to understand "
    ++ "their core functionalities.\n"
    ++ "2. Summarize the Feature Points. Identify the key feature points of each software from "
    ++ "the modules documentation.\n"
    ++ "3. Find the same Feature Points. Compare the performance of the same Feature Points in "
    ++ "the two software. \n"
    ++ "4. Find the different Feature Points. Identify the Feature Points that only one "
    ++ "software has.\n"
    ++ "5. Write a Summary. Summarize the comparison and give your suggestions.\n\n"
    ++ "Please Note:\n"
    ++ "- For a feature point, if one software performs better, use **bold** to highlight its "
    ++ "performance.\n"
    ++ "- For a feature point, if one of the software doesn't show the feature point, output X.\n"
    ++ "- Give a summary of the comparison behind the table showing which software is better "
    ++ "and why. \n"
    ++ "- Don't mention all the functions the software have, summarize the most important ones.\n"

def comparison (software : String) : String :=
  fillAll [("software", software)] comparisonTemplate

end Docsmith.Prompt
