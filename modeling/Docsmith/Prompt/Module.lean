import Docsmith.Prompt.Slot

/-! # Prompts for documents on modules -/

namespace Docsmith.Prompt

def moduleFormat : String :=
  "> ### Module Name\n"
    ++ "> #### Description\n"
    ++ "> A concise paragraph summarizing the module's purpose, how it contributes to solving "
    ++ "specific problems, and which functions work together within the module.\n"
    ++ "> #### Functions\n"
    ++ "> - Function1\n"
    ++ "> - Function2\n"

def functionsNote : String :=
  "- #### Functions is a list of function names included in this module. Please use the "
    ++ "full function name with the return type and parameters, not the abbreviation.\n"

def coreStep : String :=
  "1. Identify Core Functionality. Start by reading through all function descriptions to "
    ++ "get a broad understanding of the available functionalities and think about the core "
    ++ "tasks or operations that these functions enable."

def modulesTemplate : String :=
  "\n"
    ++ "You are an expert in software architecture analysis. \n"
    ++ "Your task is to review function descriptions from a code repository and organize them "
    ++ "into multiple functional modules based on their purpose and interrelations. \n"
    ++ "You need to output a structured summary for each identified functional module.\n\n"
    ++ "The standard format is in the Markdown reference paragraph below, and you shouldn't "
    ++ "write the reference symbols `>` when you output:\n\n"
    ++ moduleFormat ++ "\n"
    ++ workflow
    ++ coreStep ++ "\n"
    ++ "2. Define Functional Modules. Based on the core functionalities, define initial "
    ++ "functional modules that encapsulate related tasks or operations. Use your expertise to "
    ++ "determine logical groupings of functions that contribute to similar outcomes or "
    ++ "processes.\n"
    ++ "3. Analyze Function Interdependencies. Examine how functions interact with one another. "
    ++ "Consider whether they are called in sequence, share data, or serve complementary "
    ++ "purposes. Recognize that a single function can be part of multiple modules if it serves "
    ++ "different roles or contexts.\n"
    ++ "4. Refine Module Definitions. Review and adjust the boundaries of the modules as needed "
    ++ "to ensure they accurately reflect the relationships between functions. Ensure that each "
    ++ "module's summary clearly articulates its unique value and contribution to the overall "
    ++ "system.\n"
    ++ "5. Generate Documentation. Write a summary for each module using the provided format "
    ++ "you finally decide and put them together. Don't include any other content in the "
    ++ "output. \n\n"
    ++ "Please Note:\n"
    ++ functionsNote
    ++ "- Try to put every function into at least one module unless the function is really "
    ++ "useless.\n"
    ++ fixedHeadings "xxx"
    ++ " Don't add new Level 3 or Level 4 headings. Do not write anything outside the format\n\n"
    ++ "Now a list of function descriptions are provided as follows, you can start working.\n"
    ++ "\x7bapi_docs\x7d\n"

def modules (routines : String) : String :=
  fillAll [("api_docs", routines)] modulesTemplate

def enhanceModuleTemplate : String :=
  "\n"
    ++ "You are an expert in software architecture analysis. \n"
    ++ "Your task is to read the module documentation of a project and improve it.\n"
    ++ "There are two key points for improvement:\n"
    ++ "1. This module contains some functions, but these functions may not be appropriate, and "
    ++ "you need to remove these functions.\n"
    ++ "2. Design a usage scenario for this module. You need to mock a use case that combines "
    ++ "as many functions as possible from the module to solve a specific problem in this "
    ++ "scenario. The use case should be realistic and demonstrate the functionality of the "
    ++ "module.'\n\n"
    ++ sameFormat
    ++ moduleFormat
    ++ "> #### Use Case\n"
    ++ "> ```\x7blang\x7d\n"
    ++ "> Mock possible usage examples of the Module with codes.\n"
    ++ "> ```\n\n"
    ++ workflow
    ++ "1. Understand the Module. Read through the function descriptions and the module summary "
    ++ "to gain a comprehensive understanding of the module's purpose and functionality. "
    ++ "Identify the key functions that contribute to the module's core operations and remove "
    ++ "any irrelevant functions.\n"
    ++ "2. Define the Use Case. Based on the functions available in the module, define a "
    ++ "specific problem or scenario that the module can address. Consider how multiple "
    ++ "functions can work together to achieve a desired outcome or solve a particular issue.\n"
    ++ "3. Rewrite the Module Summary. Update the module summary to reflect the refined list of "
    ++ "functions and the use case you have designed. \n\n"
    ++ "Please Note:\n"
    ++ "- If all functions are related to the module tightly, you don't need to remove any "
    ++ "functions.\n"
    ++ functionsNote
    ++ "- You can revise the content in #### Description if it's not consistent with the "
    ++ "answers to the questions.\n"
    ++ fixedHeadings "xxx" ++ " \n"
    ++ "- Don't write new Level 3 or Level 4 headings. Don't write anything outside the format. "
    ++ "\n"
    ++ "- Do not output descriptions of improvements.\n\n\n"
    ++ "Here is the documentation of the module you need to enhance:\n\n"
    ++ "\x7bmodule_doc\x7d\n\n"
    ++ "Here is the documentation of the functions referenced in the module:\n\n"
    ++ "\x7bfunctions_doc\x7d\n"

def enhanceModule (lang module routines : String) : String :=
  fillAll [("module_doc", module), ("functions_doc", routines), ("lang", lang)]
    enhanceModuleTemplate

def groupTemplate : String :=
  "\n"
    ++ "You are an expert in software architecture analysis. \n"
    ++ "Your task is to review function descriptions from a code repository and organize them "
    ++ "into one or more functional module based on their purpose and interrelations. \n\n"
    ++ "The following will provide you with the documentation of each function in the software "
    ++ "in turn:\n"
    ++ "\x7bapi_doc\x7d\n\n"
    ++ "Please organize these functions into one or more functional module and output each "
    ++ "module documentation in the following format. \n"
    ++ "You shouldn't write the reference symbols `>` when you output.\n\n"
    ++ moduleFormat ++ "\n"
    ++ workflow
    ++ coreStep ++ " \n"
    ++ "2. Filter Functions. Based on the core functionalities, filter out the functions that "
    ++ "are not appropriate for the module. Consider whether they are called in sequence, share "
    ++ "data, or serve complementary purposes. \n"
    ++ "3. Name the Module in the required language. Review the core functionalities and the "
    ++ "use case to come up with a suitable name for the module to replace the placeholder "
    ++ "\"Module Name\" in the template. Remember that this is just a module of the software. "
    ++ "Don't make it too broad.\n\n"
    ++ "Please Note:\n"
    ++ functionsNote
    ++ fixedHeadings "Description"
    ++ " Don't add new Level 3 or Level 4 headings. Do not write anything outside the format.\n"
    ++ "- Don't add divider lines like `---` between multiple modules.\n"

def group (routines : String) : String :=
  fillAll [("api_doc", routines)] groupTemplate

def mergeTemplate : String :=
  "\n"
    ++ "You are an expert in software architecture analysis.\n"
    ++ "You have reviewed the function descriptions from a code repository and organized them "
    ++ "into functional modules based on their purpose and interrelations.\n"
    ++ "Now you need to merge the modules to make the documentation more concise and clear.\n\n"
    ++ "The following are the documentation of the modules you have organized:\n"
    ++ "\x7bmodule_doc\x7d\n\n"
    ++ "Please merge modules with similar functions and output the merged module documentation "
    ++ "in the same format.\n"
    ++ "The correct format of each module documentation is as follows and you shouldn't write "
    ++ "the reference symbols `>` when you output:\n\n"
    ++ moduleFormat ++ "\n"
    ++ workflow
    ++ "1. Review Module Descriptions. Read through the descriptions of each module to "
    ++ "understand the core functionalities of the software.\n"
    ++ "2. Merge Modules. Identify modules with similar functions or that can be combined to "
    ++ "form a more comprehensive module. Consider how the functions in each module can work "
    ++ "together to solve a specific problem or address a particular use case.\n"
    ++ "3. Remove useless modules. If there are modules that are not related to the software's "
    ++ "core functionalities, consider removing them from the documentation to make it more "
    ++ "concise.\n"
    ++ "4. Name the Merged Module in the required language. Based on the functions and use "
    ++ "cases of the merged modules, come up with a suitable name for the merged module to "
    ++ "replace the placeholder \"Module Name\" in the template. Remember that this is just a "
    ++ "module of the software. Don't make it too broad.\n\n"
    ++ "Please Note:\n"
    ++ functionsNote
    ++ fixedHeadings "Description"
    ++ " Don't add new Level 3 or Level 4 headings. Do not write anything outside the format.\n"
    ++ "- Don't omit any modules related to the software's core functionalities. If they cannot "
    ++ "be merged, keep them.\n"
    ++ "- Don't add divider lines like `---` between multiple modules.\n\n"

def merge (modules : String) : String :=
  fillAll [("module_doc", modules)] mergeTemplate

end Docsmith.Prompt
